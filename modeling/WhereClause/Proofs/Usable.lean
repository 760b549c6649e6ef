/-
WhereClause/Proofs/Usable.lean

Which comparisons a statement can be made of.

A comparison becomes a test in two steps: its operands have to suit the operator for there
to be a call, and the operands of the call have to have a place in a statement
(`Comparison.atom`).  What comes of it is said here without either of them.  It depends on
the kinds of the operands alone: no list on the left, and on the right what the operator
takes (`Comparison.Usable`).

The second step asks for no more than that no list is where a single value is wanted
(`exists_term_iff` and the lemmas on each kind of call).  `exists_atom_of_callOf_iff` puts
the steps together, operator by operator, and `Comparison.exists_atom_iff` says that a
configuration makes no difference, since it only changes names.
-/
import WhereClause.Config

namespace WhereClause

open Sql

variable {m : Mapping}

/-- The test that a comparison becomes in a statement. -/
def Comparison.atom (m : Mapping) (c : Comparison) : Except Refusal Atom := do
  let call ← c.call m
  (Sql.atom call).mapError (.unfit (blamed call))

/-! ### Usable comparisons -/

/-- Whether a value is a list. -/
def Literal.isList : Literal → Bool
  | list _ => true
  | _ => false

/-- Whether an operand is a list. -/
def Operand.isList : Operand → Bool
  | field _ => false
  | value literal => literal.isList

/-- What an operator can have on its right side in a statement.  The tests for null have
nothing there, and membership is looked for in a list without lists in it, or in a single
value.  A text is searched for a single value that is not null, and a field counts as its
name. -/
def Operator.Takes (operator : Operator) (right : Option Operand) : Prop :=
  match operator with
  | isNull | notNull => True
  | isIn | notIn => ∃ literal, right = some (.value literal) ∧
      ∀ items, literal = .list items → ∀ item ∈ items, item.isList = false
  | contains | startsWith | endsWith =>
      ∃ o, right = some o ∧ o.isList = false ∧ o ≠ .value .null
  | equal | notEqual | greater | greaterEqual | less | lessEqual =>
      ∃ o, right = some o ∧ o.isList = false

/-- A comparison that a statement can be made of. -/
def Comparison.Usable (c : Comparison) : Prop :=
  c.left.isList = false ∧ c.operator.Takes c.right

/-! ### The test of a call -/

theorem exists_constant_iff {l : Literal} : (∃ k, constant l = .ok k) ↔ l.isList = false := by
  cases l <;> simp [constant, Literal.isList]

theorem exists_constants_iff {values : List Literal} :
    (∃ ks, values.mapM constant = .ok ks) ↔ ∀ v ∈ values, v.isList = false := by
  induction values with
  | nil => simp [pure, Except.pure]
  | cons v values ih =>
      rw [List.mapM_cons, exists_bind_eq_ok_iff, List.forall_mem_cons, ← exists_constant_iff]
      simp only [exists_bind_pure_eq_ok_iff, ih]
      exact exists_and_right

theorem exists_term_iff {o : Operand} : (∃ t, term o = .ok t) ↔ o.isList = false := by
  rcases o with name | l
  · simp [term, Operand.isList]
  · cases l <;> simp [term, constant, Operand.isList, Literal.isList, bind, Except.bind, pure,
      Except.pure]

/-- What follows the left operand of a call is looked at once this operand is a term. -/
theorem exists_term_bind_iff {o : Operand} {next : Term → Except Unfit Atom} {p : Prop}
    (h : ∀ t, (∃ a, next t = .ok a) ↔ p) :
    (∃ a, (term o >>= next) = .ok a) ↔ o.isList = false ∧ p := by
  simp only [exists_bind_eq_ok_iff, h, exists_and_right, exists_term_iff]

/-- A comparison of two operands is a test if neither of them is a list. -/
theorem exists_atom_compare_iff {left right : Operand} {comparator : Comparator}
    (h : comparator ≠ .like) :
    (∃ a, Sql.atom (.compare left comparator right) = .ok a) ↔
      left.isList = false ∧ right.isList = false := by
  refine exists_term_bind_iff fun t => ?_
  split
  · exact absurd rfl h
  · exact absurd rfl h
  · simp [Operand.isList, Literal.isList, pure, Except.pure]
  · simp [Operand.isList, Literal.isList, pure, Except.pure]
  · rw [exists_bind_pure_eq_ok_iff, exists_term_iff]

/-- A comparison with a pattern is a test if there is no list on its left side. -/
theorem exists_atom_like_iff {left : Operand} {pattern : String} :
    (∃ a, Sql.atom (.compare left .like (.value (.text pattern))) = .ok a) ↔
      left.isList = false := by
  rw [← and_true (left.isList = false)]
  exact exists_term_bind_iff fun t => iff_true_intro ⟨_, rfl⟩

/-- A membership test is a test if there is no list on its left side or among its values. -/
theorem exists_atom_isIn_iff {field : Operand} {values : List Literal} {negated : Bool} :
    (∃ a, Sql.atom (.isIn field values negated) = .ok a) ↔
      field.isList = false ∧ ∀ v ∈ values, v.isList = false := by
  refine exists_term_bind_iff fun t => ?_
  rw [exists_bind_pure_eq_ok_iff, exists_constants_iff]

/-- A test for null is a test if there is no list on its left side. -/
theorem exists_atom_isNull_iff {field : Operand} {negated : Bool} :
    (∃ a, Sql.atom (.isNull field negated) = .ok a) ↔ field.isList = false := by
  rw [Sql.atom, exists_bind_pure_eq_ok_iff, exists_term_iff]

/-! ### The call of a usable comparison -/

theorem exists_memberValues_iff {right : Option Operand} :
    (∃ values, memberValues right = .ok values ∧ ∀ v ∈ values, v.isList = false) ↔
      ∃ literal, right = some (.value literal) ∧
        ∀ items, literal = .list items → ∀ item ∈ items, item.isList = false := by
  rcases right with - | (name | literal)
  · simp [memberValues]
  · simp [memberValues]
  · cases literal <;> simp [memberValues, Literal.isList]

theorem exists_patternText_iff {right : Option Operand} :
    (∃ s, patternText right = .ok s) ↔
      ∃ o, right = some o ∧ o.isList = false ∧ o ≠ .value .null := by
  rcases right with - | (name | literal)
  · simp [patternText]
  · simp [patternText, Operand.isList]
  · cases literal <;> simp [patternText, Operand.isList, Literal.isList]

/-- A test can be made from the operands that a call is made from if there is no list on the
left and the operator takes what is on the right. -/
theorem exists_atom_of_callOf_iff {left : Operand} {operator : Operator} {right : Option Operand} :
    (∃ call, callOf left operator right = .ok call ∧ ∃ a, Sql.atom call = .ok a) ↔
      left.isList = false ∧ operator.Takes right := by
  cases operator
  case equal | notEqual | greater | greaterEqual | less | lessEqual =>
    rcases right with - | o
    · simp [callOf, Operator.Takes]
    · simp [callOf, Operator.Takes, exists_atom_compare_iff]
  case isIn | notIn =>
    simp only [Operator.Takes, ← exists_memberValues_iff]
    rcases hvalues : memberValues right with unfit | values
    · simp [callOf, hvalues, bind, Except.bind]
    · simp [callOf, hvalues, bind, Except.bind, pure, Except.pure, exists_atom_isIn_iff]
  case isNull | notNull => simp [callOf, Operator.Takes, exists_atom_isNull_iff]
  case contains | startsWith | endsWith =>
    simp only [Operator.Takes, ← exists_patternText_iff]
    rcases htext : patternText right with unfit | text
    · simp [callOf, htext, bind, Except.bind]
    · simp [callOf, htext, bind, Except.bind, pure, Except.pure, exists_atom_like_iff]

/-- A configuration changes names only, so it neither makes nor unmakes a list or a null. -/
theorem Config.operand_eq (config : Config) (opposite : Option String) (o : Operand) :
    config.mapping.operand opposite o =
      match o with
      | .field name => .field (config.columnName name)
      | .value literal => .value literal := by
  rcases o with name | literal
  · rfl
  · rfl

theorem Config.takes_right_iff (config : Config) (c : Comparison) :
    c.operator.Takes (config.mapping.right c) ↔ c.operator.Takes c.right := by
  rw [Mapping.right]
  rcases c.right with - | (name | literal)
  · rfl
  · cases c.operator <;> simp [Operator.Takes, config.operand_eq, Operand.isList]
  · simp only [Option.map_some, config.operand_eq]

/-- A comparison is a test under a configuration exactly if it is usable. -/
theorem Comparison.exists_atom_iff (config : Config) (c : Comparison) :
    (∃ a, c.atom config.mapping = .ok a) ↔ c.Usable := by
  have hleft : (config.mapping.left c).isList = c.left.isList := by
    rw [Mapping.left, config.operand_eq]
    rcases c.left with name | literal
    · rfl
    · rfl
  rw [Comparison.atom, exists_bind_eq_ok_iff, Comparison.call]
  simp only [mapError_eq_ok_iff]
  rw [exists_atom_of_callOf_iff, hleft, config.takes_right_iff, Comparison.Usable]

/-- A comparison that is no test has an operand that does not suit an operator. -/
theorem Comparison.exists_unfit_of_atom {c : Comparison} {reason : Refusal}
    (h : c.atom m = .error reason) : ∃ operator operand, reason = .unfit operator operand := by
  have hmapError : ∀ {α : Type} {operator : Operator} {found : Except Unfit α},
      found.mapError (Refusal.unfit operator) = .error reason →
        ∃ operand, reason = .unfit operator operand := by
    rintro α operator (operand | a) h
    · cases h
      exact ⟨operand, rfl⟩
    · cases h
  rw [Comparison.atom] at h
  rcases hcall : c.call m with reason' | call
  · rw [hcall] at h
    cases h
    exact ⟨c.operator, hmapError hcall⟩
  · rw [hcall] at h
    exact ⟨blamed call, hmapError h⟩

end WhereClause
