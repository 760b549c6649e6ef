/-
WhereClause/Proofs/ConstraintMap.lean

The constraints of a filter as a map from field names, in the order of the first accesses.

An operation may access the constraint on one field: it is given out and operations are
carried out on it, or it is replaced as a whole (`Access`).  `accesses` lists the accesses of
a run of operations, those of refused operations left out, and all that there is to know
about the constraints can be read from this list (`Accounts`).  The names stand in the order
in which they turn up in it first.  The constraint on a field is the one that was stored
last, or an empty one, with the operations since then carried out on it (`latest`).

`Accounts.store` is the one lemma on which this rests: to store what an access makes of
the constraint on a field keeps the account.  The step of the invariant is
`Accounts.operation`, its run `Accounts.after`.
-/
import Mathlib.Data.List.Induction
import WhereClause.Proofs.Refused

namespace WhereClause

/-! ### First occurrences -/

/-- One more name counts if it is new. -/
theorem eraseDups_concat (names : List String) (name : String) :
    (names ++ [name]).eraseDups =
      if name ∈ names then names.eraseDups else names.eraseDups ++ [name] := by
  rw [List.eraseDups_append]
  by_cases h : name ∈ names
  · simp [List.removeAll, h]
  · simp [List.removeAll, h, List.eraseDups_cons]

theorem nodup_eraseDups (names : List String) : names.eraseDups.Nodup := by
  induction names using List.reverseRecOn with
  | nil => simp
  | append_singleton names name ih =>
      rw [eraseDups_concat]
      split
      · exact ih
      · next h =>
          refine List.nodup_append.mpr ⟨ih, List.pairwise_singleton _ name, ?_⟩
          rintro x hx y hy rfl
          rw [List.mem_singleton.mp hy] at hx
          exact h (List.mem_eraseDups.mp hx)

namespace Filter

/-! ### Accesses -/

/-- What becomes of a constraint when its field is accessed. -/
inductive Access where
  /-- It is replaced by one with this group. -/
  | stored (group : Group)
  /-- It is given out, and these operations are carried out on it. -/
  | used (operations : List Group.Operation)

/-- The group that was stored last, an empty one if there is none, and the operations that
were carried out since then. -/
def latest (accesses : List Access) : Group × List Group.Operation :=
  accesses.foldl (fun last access =>
    match access with
    | .stored group => (group, [])
    | .used operations => (last.1, last.2 ++ operations)) ({}, [])

/-- The access that an operation on a filter comes to, with the name of the field.  A field
was accessed if its constraint was given out, even if an operation on it is refused. -/
def Operation.access? (f : Filter) : Operation → Option (String × Access)
  | constrain name operations =>
      match ((field name).on f).result with
      | .ok c => some (name, .used (Group.Operation.carriedOut c.site c.group operations))
      | .error _ => none
  | set name value =>
      match ((Filter.set name value).on f).result with
      | .ok () => some (name, .stored ⟨none, [.test (.on name .equal value)]⟩)
      | .error _ => none
  | setConstraint name c =>
      match ((Filter.setConstraint name c).on f).result with
      | .ok () => some (name, .stored c.group)
      | .error _ => none
  | _ => none

/-- The accesses of some operations, each of them carried out whether or not those before
were refused. -/
def accesses (f : Filter) : List Operation → List (String × Access)
  | [] => []
  | op :: rest => (op.access? f).toList ++ (op.work.on f).state.accesses rest

/-- The accesses to one field. -/
def accessesTo (name : String) (accesses : List (String × Access)) : List Access :=
  (accesses.filter fun a => a.1 == name).map Prod.snd

/-- The constraint on a field that some accesses leave in a filter with an allow-list. -/
def remaining (allowed : AllowList) (name : String) (accesses : List (String × Access)) :
    Constraint :=
  let (group, operations) := latest (accessesTo name accesses)
  ⟨name, group.after (.constraint allowed name) operations, allowed⟩

/-! ### One more access -/

variable {allowed : AllowList} {name other : String} {accesses : List (String × Access)}

theorem accessesTo_concat_self (accesses : List (String × Access)) (name : String)
    (access : Access) :
    accessesTo name (accesses ++ [(name, access)]) = accessesTo name accesses ++ [access] := by
  simp [accessesTo]

theorem accessesTo_concat_of_ne (h : name ≠ other) (access : Access) :
    accessesTo other (accesses ++ [(name, access)]) = accessesTo other accesses := by
  simp [accessesTo, h]

/-- To store a constraint makes what was there before of no account. -/
theorem remaining_concat_stored (group : Group) :
    remaining allowed name (accesses ++ [(name, .stored group)]) = ⟨name, group, allowed⟩ := by
  simp [remaining, accessesTo_concat_self, latest, Group.after]

/-- Operations go on from where the constraint was. -/
theorem remaining_concat_used (operations : List Group.Operation) :
    remaining allowed name (accesses ++ [(name, .used operations)]) =
      let c := remaining allowed name accesses
      { c with group := c.group.after c.site operations } := by
  simp [remaining, accessesTo_concat_self, latest, Group.after_append, Constraint.site]

/-- An access to one field leaves the others. -/
theorem remaining_concat_of_ne (h : name ≠ other) (access : Access) :
    remaining allowed other (accesses ++ [(name, access)]) = remaining allowed other accesses := by
  rw [remaining, accessesTo_concat_of_ne h, remaining]

theorem remaining_of_notMem (h : name ∉ accesses.map Prod.fst) :
    remaining allowed name accesses = ⟨name, {}, allowed⟩ := by
  have hnone : accessesTo name accesses = [] := by
    simp only [accessesTo, List.map_eq_nil_iff, List.filter_eq_nil_iff, beq_iff_eq]
    rintro a ha rfl
    exact h (List.mem_map_of_mem ha)
  rw [remaining, hnone]
  rfl

/-! ### The account of a filter -/

/-- What some accesses say about the constraints of a filter with an allow-list. -/
structure Accounts (allowed : AllowList) (accesses : List (String × Access)) (f : Filter) :
    Prop where
  allowed_eq : f.allowed = allowed
  names_eq : f.names = (accesses.map Prod.fst).eraseDups
  constraint?_eq : ∀ name, f.constraint? name =
    if name ∈ accesses.map Prod.fst then some (remaining allowed name accesses) else none

theorem accounts_limited (allowed : AllowList) : Accounts allowed [] (limited allowed) :=
  ⟨rfl, by simp [names, limited], by simp [constraint?, limited]⟩

namespace Accounts

variable {f : Filter}

/-- To store what an access makes of a constraint keeps the account. -/
theorem store (hf : f.Accounts allowed accesses) (access : Access) {c : Constraint}
    (hc : c = remaining allowed name (accesses ++ [(name, access)])) :
    (f.store c).Accounts allowed (accesses ++ [(name, access)]) := by
  have hname : c.name = name := by rw [hc, remaining]
  refine ⟨hf.allowed_eq, ?_, fun other => ?_⟩
  · rw [List.map_append, List.map_singleton, eraseDups_concat, names_store, hf.names_eq, hname]
    simp only [List.mem_eraseDups]
  · rw [constraint?_store, hname, hf.constraint?_eq]
    by_cases h : name = other
    · subst h
      rw [if_pos rfl, if_pos (by simp), hc]
    · have hmem : other ∈ (accesses ++ [(name, access)]).map Prod.fst ↔
          other ∈ accesses.map Prod.fst := by
        rw [List.map_append, List.mem_append, List.map_singleton, List.mem_singleton]
        exact or_iff_left (Ne.symm h)
      simp only [if_neg h, hmem, remaining_concat_of_ne h]

/-- A constraint that is given out is what the accesses have left. -/
theorem gives_eq (hf : f.Accounts allowed accesses) {c : Constraint} (hgives : f.Gives name c) :
    c = remaining allowed name accesses := by
  cases hgives with
  | found h =>
      rw [hf.constraint?_eq] at h
      split at h
      · exact (Option.some.inj h).symm
      · cases h
  | created h =>
      rw [hf.constraint?_eq] at h
      split at h
      · cases h
      · next hnew => rw [remaining_of_notMem hnew, hf.allowed_eq]

/-- What changes nothing but the condition keeps the account. -/
theorem of_constraints_eq (hf : f.Accounts allowed accesses) (condition : Group) :
    (f.withCondition condition).Accounts allowed accesses :=
  ⟨hf.allowed_eq, hf.names_eq, hf.constraint?_eq⟩

/-- An operation keeps the account, with its access added. -/
theorem operation (hf : f.Accounts allowed accesses) (op : Operation) :
    (op.work.on f).state.Accounts allowed (accesses ++ (op.access? f).toList) := by
  have hsame : f.Accounts allowed (accesses ++ []) := by rwa [List.append_nil]
  cases op with
  | append connector node => exact hsame.of_constraints_eq _
  | compare connector field operator value => exact hsame.of_constraints_eq _
  | group connector build => exact hsame.of_constraints_eq _
  | constrain name operations =>
      rcases constrain_cases name f with
        ⟨reason, hfield, hwork⟩ | ⟨c, -, hgives, hresult, hwork⟩
      · rw [Operation.work, hwork, Operation.access?, hfield]
        exact hsame
      · rw [Operation.work, hwork, Operation.access?, hresult]
        refine hf.store (.used _) ?_
        rw [remaining_concat_used, ← hf.gives_eq hgives, Group.Operation.state_inOrder]
  | set name value =>
      rcases set_cases name value f with ⟨reason, h⟩ | h
      · rw [Operation.work, Operation.access?, h]
        exact hsame
      · rw [Operation.work, Operation.access?, h]
        refine hf.store (.stored _) ?_
        rw [remaining_concat_stored, hf.allowed_eq]
  | setConstraint name c =>
      rcases setConstraint_cases name c f with ⟨reason, h⟩ | ⟨hname, h⟩
      · rw [Operation.work, Operation.access?, h]
        exact hsame
      · rw [Operation.work, Operation.access?, h]
        refine hf.store (.stored c.group) ?_
        rw [remaining_concat_stored, hname, hf.allowed_eq]

/-- And so do operations in a row, refused or not. -/
theorem after (hf : f.Accounts allowed accesses) (operations : List Operation) :
    (f.after operations).Accounts allowed (accesses ++ f.accesses operations) := by
  induction operations generalizing f accesses with
  | nil => rwa [Filter.accesses, List.append_nil]
  | cons op rest ih =>
      rw [Filter.accesses, ← List.append_assoc]
      exact ih (hf.operation op)

end Accounts

/-! ### What an operation leaves alone -/

/-- An operation on a field stores a constraint under its name, or does nothing. -/
theorem Operation.state_of_field? {op : Operation} {name : String} (h : op.field? = some name)
    (f : Filter) :
    (op.work.on f).state = f ∨ ∃ c, c.name = name ∧ (op.work.on f).state = f.store c := by
  cases op with
  | append connector node => cases h
  | compare connector field operator value => cases h
  | group connector build => cases h
  | constrain name operations =>
      cases h
      rcases constrain_cases name f with ⟨reason, -, hwork⟩ | ⟨c, -, hgives, -, hwork⟩
      · exact .inl (by rw [work, hwork])
      · let group := ((Group.Operation.inOrder c.site operations).on c.group).state
        refine .inr ⟨{ c with group }, hgives.name_eq, ?_⟩
        rw [work, hwork, Run.map]
  | set name value =>
      cases h
      rcases set_cases name value f with ⟨reason, hset⟩ | hset
      · exact .inl (by rw [work, hset])
      · exact .inr ⟨_, rfl, by rw [work, hset]⟩
  | setConstraint name c =>
      cases h
      rcases setConstraint_cases name c f with ⟨reason, hset⟩ | ⟨hname, hset⟩
      · exact .inl (by rw [work, hset])
      · exact .inr ⟨{ c with allowed := f.allowed }, hname, by rw [work, hset]⟩

/-- It leaves the condition and the constraints on other fields. -/
theorem Operation.frame_of_field? {op : Operation} {name : String} (h : op.field? = some name)
    (f : Filter) :
    (op.work.on f).state.condition = f.condition ∧
      ∀ other, other ≠ name → (op.work.on f).state.constraint? other = f.constraint? other := by
  rcases Operation.state_of_field? h f with heq | ⟨c, rfl, heq⟩
  · rw [heq]
    exact ⟨rfl, fun _ _ => rfl⟩
  · rw [heq]
    exact ⟨rfl, fun other hother => by rw [constraint?_store, if_neg (Ne.symm hother)]⟩

/-- An operation on the condition leaves the constraints. -/
theorem Operation.constraints_of_field?_eq_none {op : Operation} (h : op.field? = none)
    (f : Filter) : (op.work.on f).state.constraints = f.constraints := by
  cases op with
  | append connector node => rfl
  | compare connector field operator value => rfl
  | group connector build => rfl
  | constrain name operations => cases h
  | set name value => cases h
  | setConstraint name c => cases h

end Filter

/-! ### Constraints as a map -/

/-- After any operations on a new filter, refused or not, the names of its constraints are
those of the fields that were accessed, each of them once and in the order of the first
accesses.  The constraint on such a field is the one that was stored last, or an empty one,
with the operations carried out on it since then, and there is none on any other field.
An operation on one field leaves the condition and the constraints on other fields as they
are, and an operation on the condition leaves all constraints. -/
theorem constraints_eq_of_accesses (allowed : AllowList) (operations : List Filter.Operation) :
    let f := (Filter.limited allowed).after operations
    let accesses := (Filter.limited allowed).accesses operations
    f.names.Nodup ∧ f.names = (accesses.map Prod.fst).eraseDups ∧
      (∀ name, f.constraint? name =
        if name ∈ accesses.map Prod.fst then some (Filter.remaining allowed name accesses)
        else none) ∧
      ∀ op : Filter.Operation,
        (∀ name, op.field? = some name →
          (op.work.on f).state.condition = f.condition ∧
            ∀ other, other ≠ name →
              (op.work.on f).state.constraint? other = f.constraint? other) ∧
        (op.field? = none → (op.work.on f).state.constraints = f.constraints) := by
  intro f accesses
  have hf : f.Accounts allowed accesses := (Filter.accounts_limited allowed).after operations
  refine ⟨?_, hf.names_eq, hf.constraint?_eq, fun op => ⟨fun name h => op.frame_of_field? h f,
    fun h => op.constraints_of_field?_eq_none h f⟩⟩
  rw [hf.names_eq]
  exact nodup_eraseDups _

/-- Accesses to two fields, of which the first one is replaced by a prepared constraint and
used again, with a refused step in each way of access. -/
theorem constraints_eq_of_accesses_steps :
    let first := Group.Operation.compare .and "" (.known .equal) (.of (1 : Int64))
    let second := Group.Operation.compare .or "" (.known .isNull) (.of (0 : Int64))
    let operations := [Filter.Operation.set "c" (.of (1 : Int64)),
      .constrain "b" [first, second, first, second], .set "a" (.of (2 : Int64)),
      .setConstraint "a" ⟨"b", {}, .all⟩,
      .setConstraint "b" ⟨"b", ⟨none, [.test (.on "b" .less (.field "a"))]⟩, .all⟩,
      .constrain "b" [.append none (.group {})], .constrain "b" [second]]
    let f := (Filter.limited (.ofList ["a", "b"])).after operations
    let op := Filter.Operation.constrain "b" [first]
    f.names = ["b", "a"] ∧
      (f.constraint? "b").map (fun c => (c.group.connector, c.group.members.length)) =
        some (some .or, 2) ∧
      op.field? = some "b" ∧ "a" ≠ "b" ∧
      (op.work.on f).state.constraint? "a" = f.constraint? "a" := by
  intro first second operations f op
  obtain ⟨-, -, -, hframe⟩ := constraints_eq_of_accesses (.ofList ["a", "b"]) operations
  have hother : "a" ≠ "b" := by decide
  refine ⟨?_, ?_, rfl, hother, ((hframe op).1 "b" rfl).2 "a" hother⟩
  · decide +kernel
  · decide +kernel

end WhereClause
