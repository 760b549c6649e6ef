/-
WhereClause/Refusal.lean

The reasons for which building or compiling a filter is refused, and their
messages.

A builder refuses a second connector in a group, a missing connector, a field
outside the allow-list, a constraint under a foreign name, and an unknown
operator.  A compiler refuses an operand that the operator cannot take.  The
last reason, `unjoined`, is left for a group that holds several terms but no
connector; builders never produce such a group.

`exists_of_bind_eq_ok` takes apart what was found in two steps, and
`eq_ok_of_mapError_eq_ok` looks behind a change of reasons.  `exists_bind_eq_ok_iff` and
`mapError_eq_ok_iff` go both ways.
-/
import WhereClause.Connector
import WhereClause.Operator

namespace WhereClause

/-- What an operator cannot take. -/
inductive Unfit where
  | missing
  | fieldReference
  | nullPattern
  | listPattern
  | otherPattern
  | listInComparison
  | nestedList
  deriving DecidableEq, Repr

/-- The words for an unfit operand. -/
def Unfit.text : Unfit → String
  | missing => "a missing right operand"
  | fieldReference => "a field reference"
  | nullPattern => "a null pattern"
  | listPattern => "a list pattern"
  | otherPattern => "a non-text pattern"
  | listInComparison => "a list in a scalar comparison"
  | nestedList => "a nested list"

/-- A reason for which something is refused. -/
inductive Refusal where
  | conflict (expected found : Connector)
  | connectorRequired
  | notAllowed (field : String)
  | foreignName (expected found : String)
  | unknownOperator (text : String)
  | unfit (operator : Operator) (operand : Unfit)
  | unjoined (terms : Nat)
  deriving DecidableEq, Repr

/-- The message of a refusal. -/
def Refusal.message : Refusal → String
  | conflict expected found =>
      "mixed AND/OR operators in the same group: group joins with `" ++ expected.text ++
        "`, got `" ++ found.text ++ "`"
  | connectorRequired => "a connector is required for every expression after the first in a group"
  | notAllowed field => "field `" ++ field ++ "` is not allowed in this filter"
  | foreignName expected found =>
      "constraint for `" ++ found ++ "` cannot be assigned to field `" ++ expected ++ "`"
  | unknownOperator text => "unsupported operator `" ++ text ++ "`"
  | unfit operator operand => "operator `" ++ operator.token ++ "` cannot take " ++ operand.text
  | unjoined terms => "group joins " ++ toString terms ++ " terms without a connector"

/-- What was found after two steps was found by the second one in what the first one has
found. -/
theorem exists_of_bind_eq_ok {ε α β : Type} {first : Except ε α} {next : α → Except ε β} {b : β}
    (h : (first >>= next) = .ok b) : ∃ a, first = .ok a ∧ next a = .ok b := by
  rcases first with reason | a
  · cases h
  · exact ⟨a, rfl, h⟩

/-- Other reasons for a refusal do not change what is found. -/
theorem eq_ok_of_mapError_eq_ok {ε δ α : Type} {f : ε → δ} {found : Except ε α} {a : α}
    (h : found.mapError f = .ok a) : found = .ok a := by
  rcases found with reason | b
  · cases h
  · cases h
    rfl

theorem mapError_eq_ok_iff {ε δ α : Type} {f : ε → δ} {found : Except ε α} {a : α} :
    found.mapError f = .ok a ↔ found = .ok a := by
  constructor
  · exact eq_ok_of_mapError_eq_ok
  · rintro rfl
    rfl

/-- Something is found in two steps if something is found in each of them. -/
theorem exists_bind_eq_ok_iff {ε α β : Type} {first : Except ε α} {next : α → Except ε β} :
    (∃ b, (first >>= next) = .ok b) ↔ ∃ a, first = .ok a ∧ ∃ b, next a = .ok b := by
  constructor
  · rintro ⟨b, h⟩
    obtain ⟨a, hfirst, hnext⟩ := exists_of_bind_eq_ok h
    exact ⟨a, hfirst, b, hnext⟩
  · rintro ⟨a, rfl, b, hnext⟩
    exact ⟨b, hnext⟩

theorem exists_bind_pure_eq_ok_iff {ε α β : Type} {first : Except ε α} {f : α → β} :
    (∃ b, (first >>= fun a => pure (f a)) = .ok b) ↔ ∃ a, first = .ok a := by
  rw [exists_bind_eq_ok_iff]
  exact exists_congr fun a => and_iff_left ⟨f a, rfl⟩

end WhereClause
