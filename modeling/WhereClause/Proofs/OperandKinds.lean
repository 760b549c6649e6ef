/-
WhereClause/Proofs/OperandKinds.lean

What becomes of fields and of values on the way into a query.

A query should be given a field where the comparison has one, under its new name, and its
constants should come from the values of the comparison (`Comparison.KindsKept`).  This holds
for every comparison that is called, with one exception: an operator that searches a text
takes a field on its right side for the text to look for, and the new name of the field ends
up in a pattern (`Comparison.SearchesForField`).

`callOf_operands` and `callOf_constants` follow the operands of a call, when the mapping is
done with them, along the operators.  `Comparison.kindsKept_iff` puts the mapping in front.
-/
import WhereClause.Proofs.FirstRefusal
import WhereClause.Proofs.Replaced

namespace WhereClause

variable {m : Mapping}

/-! ### Fields and constants of a call -/

/-- The value that an operand is. -/
def Operand.value? : Operand → Option Literal
  | field _ => none
  | value literal => some literal

namespace Call

/-- The operand that a call tests. -/
def left : Call → Operand
  | compare left _ _ => left
  | isIn field _ _ => field
  | isNull field _ => field

/-- The operand that a call compares with. -/
def right? : Call → Option Operand
  | compare _ _ right => some right
  | isIn _ _ _ => none
  | isNull _ _ => none

/-- The constants that a call hands over. -/
def constants : Call → List Literal
  | compare left _ right => left.value?.toList ++ right.value?.toList
  | isIn field values _ => field.value?.toList ++ values
  | isNull field _ => field.value?.toList

end Call

/-- The values on the two sides of a comparison, left before right. -/
def Comparison.values (c : Comparison) : List Literal :=
  c.left.value?.toList ++ (c.right.bind Operand.value?).toList

/-- Whether an operator searches a text. -/
def Operator.searchesText : Operator → Bool
  | contains | startsWith | endsWith => true
  | _ => false

/-- The pattern for a text to search for. -/
def Operator.pattern (operator : Operator) (text : String) : String :=
  match operator with
  | startsWith => text ++ "%"
  | endsWith => "%" ++ text
  | _ => "%" ++ text ++ "%"

/-- The ways from a value to a constant of a query: as it is, as a member of a list, or as
the text in a pattern. -/
inductive Literal.ComesFrom : Literal → Literal → Prop
  | same (l : Literal) : ComesFrom l l
  | member {l : Literal} {items : List Literal} : l ∈ items → ComesFrom l (.list items)
  | pattern {l : Literal} {text : String} (operator : Operator) :
      patternText (some (.value l)) = .ok text → ComesFrom (.text (operator.pattern text)) l

/-- A call keeps the fields of a comparison as fields with their new names, and has no
constants but those that come from the values of the comparison, replaced as the mapping
says. -/
structure Comparison.KindsKept (m : Mapping) (c : Comparison) (call : Call) : Prop where
  left_field : ∀ name, c.left = .field name → call.left = .field (m.newName name)
  right_field : ∀ name, c.right = some (.field name) →
    call.right? = some (.field (m.newName name))
  constants : ∀ l ∈ call.constants, ∃ made ∈ (c.replaced m.newName m.newValue).values,
    l.ComesFrom made

/-- A field stands where the text to search for is expected. -/
def Comparison.SearchesForField (c : Comparison) : Prop :=
  c.operator.searchesText = true ∧ ∃ name, c.right = some (.field name)

/-! ### What a call is made from -/

section CallOf

variable {left : Operand} {operator : Operator} {right : Option Operand} {call : Call}

theorem memberValues_comesFrom {values : List Literal} (h : memberValues right = .ok values)
    {l : Literal} (hl : l ∈ values) :
    ∃ made ∈ (right.bind Operand.value?).toList, l.ComesFrom made := by
  rcases right with - | (name | literal)
  · cases h
  · cases h
  · refine ⟨literal, List.mem_singleton.mpr rfl, ?_⟩
    cases literal with
    | list items =>
        cases h
        exact .member hl
    | null | bool _ | int _ | float _ | text _ =>
        cases h
        rw [List.mem_singleton.mp hl]
        exact .same _

/-- An operator on texts compares with a pattern. -/
theorem callOf_of_searchesText (h : operator.searchesText = true) :
    callOf left operator right = (patternText right).map fun text =>
      .compare left .like (.value (.text (operator.pattern text))) := by
  cases operator
  case contains | startsWith | endsWith =>
    rcases htext : patternText right with unfit | text
    · simp [callOf, htext, Except.map, bind, Except.bind]
    · simp [callOf, htext, Except.map, bind, Except.bind, pure, Except.pure, Operator.pattern]
  all_goals cases h

/-- A call tests the left operand.  If its operator does not search a text then a field on
the right is handed over as well. -/
theorem callOf_operands (h : callOf left operator right = .ok call)
    (hnull : operator.takesValue = false → right = none) :
    call.left = left ∧ (operator.searchesText = false → ∀ name, right = some (.field name) →
      call.right? = some (.field name)) := by
  cases operator
  case equal | notEqual | greater | greaterEqual | less | lessEqual =>
    rcases right with - | o
    · cases h
    · cases h
      exact ⟨rfl, fun _ name ho => ho⟩
  case isIn | notIn =>
    obtain ⟨values, hvalues, hcall⟩ := exists_of_bind_eq_ok h
    cases hcall
    refine ⟨rfl, fun _ name hname => ?_⟩
    -- there are no values in a field
    rw [hname] at hvalues
    cases hvalues
  case isNull | notNull =>
    cases h
    refine ⟨rfl, fun _ name hname => ?_⟩
    rw [hnull rfl] at hname
    cases hname
  case contains | startsWith | endsWith =>
    obtain ⟨text, -, hcall⟩ := exists_of_bind_eq_ok h
    cases hcall
    exact ⟨rfl, fun hsearch => nomatch hsearch⟩

/-- The constants of a call come from the values that it is made from, unless the text to
search for is the name of a field. -/
theorem callOf_constants (h : callOf left operator right = .ok call)
    (hfield : operator.searchesText = true → ∀ name, right ≠ some (.field name)) :
    ∀ l ∈ call.constants,
      ∃ made ∈ left.value?.toList ++ (right.bind Operand.value?).toList, l.ComesFrom made := by
  intro l hl
  cases operator
  case equal | notEqual | greater | greaterEqual | less | lessEqual =>
    rcases right with - | o
    · cases h
    · cases h
      exact ⟨l, hl, .same l⟩
  case isIn | notIn =>
    obtain ⟨values, hvalues, hcall⟩ := exists_of_bind_eq_ok h
    cases hcall
    rcases List.mem_append.mp hl with hl | hl
    · exact ⟨l, List.mem_append_left _ hl, .same l⟩
    · obtain ⟨made, hmade, hfrom⟩ := memberValues_comesFrom hvalues hl
      exact ⟨made, List.mem_append_right _ hmade, hfrom⟩
  case isNull | notNull =>
    cases h
    exact ⟨l, List.mem_append_left _ hl, .same l⟩
  case contains | startsWith | endsWith =>
    rw [callOf_of_searchesText rfl] at h
    rcases right with - | (name | literal)
    · cases h
    · exact absurd rfl (hfield rfl name)
    · rcases htext : patternText (some (.value literal)) with unfit | text
      · rw [htext] at h
        cases h
      · rw [htext] at h
        cases h
        rcases List.mem_append.mp hl with hl | hl
        · exact ⟨l, List.mem_append_left _ hl, .same l⟩
        · rw [List.mem_singleton.mp hl]
          exact ⟨literal, List.mem_append_right _ (List.mem_singleton.mpr rfl),
            .pattern _ htext⟩

end CallOf

/-! ### What a comparison comes to -/

namespace Comparison

variable {c : Comparison} {call : Call} {name : String}

theorem left_of_field (h : c.left = .field name) : m.left c = .field (m.newName name) := by
  rw [Mapping.left, h]
  rfl

theorem right_of_field (h : c.right = some (.field name)) :
    m.right c = some (.field (m.newName name)) := by
  rw [Mapping.right, h]
  rfl

/-- The mapping leaves a field on the right where it is, and makes none. -/
theorem exists_right_field_iff :
    (∃ name, m.right c = some (.field name)) ↔ ∃ name, c.right = some (.field name) := by
  constructor
  · rintro ⟨name, h⟩
    obtain ⟨o, ho, hfield⟩ := Option.map_eq_some_iff.mp h
    obtain ⟨name', rfl, -⟩ := Mapping.exists_of_operand_eq_field hfield
    exact ⟨name', ho⟩
  · rintro ⟨name, h⟩
    exact ⟨m.newName name, right_of_field h⟩

/-- The values of a comparison after the mapping are those that its call is made from. -/
theorem values_replaced :
    (c.replaced m.newName m.newValue).values =
      (m.left c).value?.toList ++ ((m.right c).bind Operand.value?).toList := by
  have hright : m.operand c.left.field? = Operand.replaced m.newName m.newValue (some c.left) :=
    funext (m.operand_eq_replaced (some c.left))
  rw [Mapping.left, Mapping.right, hright, Mapping.operand_eq_replaced]
  rfl

/-- Where a field is to be searched for, the query gets its name as a text. -/
theorem call_of_searchesForField (hsearch : c.operator.searchesText = true)
    (hright : c.right = some (.field name)) :
    c.call m = .ok (.compare (m.left c) .like
      (.value (.text (c.operator.pattern (m.newName name))))) := by
  rw [Comparison.call, callOf_of_searchesText hsearch, right_of_field hright]
  rfl

/-- A call keeps the kinds of the operands unless it searches for a field. -/
theorem kindsKept_iff (hcall : c.call m = .ok call) :
    c.KindsKept m call ↔ ¬c.SearchesForField := by
  constructor
  · rintro hkept ⟨hsearch, name, hright⟩
    rw [call_of_searchesForField hsearch hright] at hcall
    cases hcall
    have hfield := hkept.right_field name hright
    cases hfield
  · intro hnot
    have hmade := callOf_eq hcall
    obtain ⟨hleft, hright⟩ := callOf_operands hmade fun hnull => by
      rw [Mapping.right, c.right_eq_none hnull, Option.map_none]
    refine ⟨fun name hname => ?_, fun name hname => ?_, ?_⟩
    · rw [hleft, left_of_field hname]
    · refine hright ?_ _ (right_of_field hname)
      exact Bool.eq_false_iff.mpr fun hsearch => hnot ⟨hsearch, name, hname⟩
    · rw [values_replaced]
      refine callOf_constants hmade fun hsearch name' hname => hnot ⟨hsearch, ?_⟩
      exact exists_right_field_iff.mp ⟨name', hname⟩

/-- A comparison that is not called is refused for an operand that its operator cannot take. -/
theorem exists_unfit_of_call {reason : Refusal} (h : c.call m = .error reason) :
    ∃ operand, reason = .unfit c.operator operand := by
  rw [Comparison.call] at h
  rcases hmade : callOf (m.left c) c.operator (m.right c) with operand | call
  · rw [hmade] at h
    cases h
    exact ⟨operand, rfl⟩
  · rw [hmade] at h
    cases h

end Comparison

/-- Under any mapping a comparison is refused for an operand that its operator cannot take, or
it comes to one call.  The call hands over every field of the comparison as a field with its
new name, and no constants but those that come from the values of the comparison, if and only
if no text is searched for a field.  In this last case the call looks for the new name of the
field as if it was a text. -/
theorem operand_kinds (m : Mapping) (c : Comparison) :
    (∃ operand, c.alone m = ⟨[], some (.unfit c.operator operand)⟩) ∨
      ∃ call, c.alone m = ⟨[.called .and call], none⟩ ∧
        (c.KindsKept m call ↔ ¬c.SearchesForField) ∧
        ∀ name, c.operator.searchesText = true → c.right = some (.field name) →
          call = .compare (m.left c) .like
            (.value (.text (c.operator.pattern (m.newName name)))) := by
  rcases hcall : c.call m with reason | call
  · obtain ⟨operand, rfl⟩ := Comparison.exists_unfit_of_call hcall
    exact .inl ⟨operand, Comparison.alone_eq_of_error hcall⟩
  · refine .inr ⟨call, Comparison.alone_eq_iff.mpr hcall, Comparison.kindsKept_iff hcall, ?_⟩
    intro name hsearch hright
    rw [Comparison.call_of_searchesForField hsearch hright] at hcall
    exact (Except.ok.inj hcall).symm

/-- Whether the field `a` contains the field `b` is asked with the name of `b` for the text. -/
theorem not_kindsKept_contains_field :
    ∃ call, (Comparison.on "a" .contains (.field "b")).alone {} = ⟨[.called .and call], none⟩ ∧
      call = .compare (.field "a") .like (.value (.text "%b%")) ∧
      ¬(Comparison.on "a" .contains (.field "b")).KindsKept {} call := by
  refine ⟨_, rfl, rfl, fun hkept => ?_⟩
  have hfield := hkept.right_field "b" rfl
  cases hfield

end WhereClause
