/-
WhereClause/AllowList.lean

The fields that a filter may mention: all of them, or only those of a finite
set.  `check` walks a list of mentioned names and refuses the first one that is
not allowed.

`check_eq_ok_iff` says that a check succeeds exactly if every name is allowed.
-/
import WhereClause.Refusal
import WhereClause.Table

namespace WhereClause

/-- The fields that may be mentioned. -/
inductive AllowList where
  | all
  | only (fields : Table Unit)
  deriving DecidableEq

instance : Inhabited AllowList := ⟨.all⟩

namespace AllowList

/-- Only the listed fields. -/
def ofList (fields : List String) : AllowList :=
  only (Table.ofList (fields.map fun name => (name, ())))

/-- The allowed fields in order, if there is a limit. -/
def names? : AllowList → Option (List String)
  | all => none
  | only fields => some fields.names

/-- Whether a field may be mentioned. -/
def allows : AllowList → String → Bool
  | all, _ => true
  | only fields, name => (fields.get? name).isSome

/-- Refuse the first of some names that is not allowed. -/
def check (allowed : AllowList) (names : List String) : Except Refusal Unit :=
  match names.find? fun name => !allowed.allows name with
  | some name => .error (.notAllowed name)
  | none => .ok ()

theorem check_eq_ok_iff {allowed : AllowList} {names : List String} :
    allowed.check names = .ok () ↔ ∀ name ∈ names, allowed.allows name := by
  unfold check
  cases h : names.find? fun name => !allowed.allows name with
  | some name =>
      have hmem := List.mem_of_find?_eq_some h
      have hbad := List.find?_some h
      simp only [reduceCtorEq, false_iff]
      intro hall
      simp [hall name hmem] at hbad
  | none => simpa using h

theorem allows_ofList {fields : List String} {name : String} :
    (ofList fields).allows name = true ↔ name ∈ fields := by
  simp [ofList, allows, Table.isSome_get?_ofList]

theorem check_singleton (allowed : AllowList) (name : String) :
    allowed.check [name] =
      if allowed.allows name then .ok () else .error (.notAllowed name) := by
  rcases hname : allowed.allows name with - | -
  · simp [check, hname]
  · simp [check, hname]

@[simp] theorem allows_all (name : String) : all.allows name = true := rfl

@[simp] theorem check_all (names : List String) : all.check names = .ok () :=
  check_eq_ok_iff.mpr fun _ _ => rfl

end AllowList

end WhereClause
