/-
WhereClause/Comparison.lean

A comparison has an operand on the left, an operator, and in most cases an
operand on the right.  An operand is a field or a constant value.

The tests for null have no right operand, which is a part of the type: a
comparison carries the proof, and `Comparison.of` drops an operand that the
operator has no use for.  Any other operator may still lack its right operand;
this is refused only when the comparison is turned into a query.

`explained` writes operand, token and operand with blanks between them.  A right
operand whose own text is empty leaves no blank behind.
-/
import WhereClause.Operator
import WhereClause.Literal

namespace WhereClause

/-- One side of a comparison. -/
inductive Operand where
  | field (name : String)
  | value (literal : Literal)
  deriving Repr, Inhabited

namespace Operand

/-- The field that an operand refers to. -/
def field? : Operand → Option String
  | field name => some name
  | value _ => none

/-- An operand from an ordinary value. -/
def of {α : Type} [ToLiteral α] (a : α) : Operand :=
  value (toLiteral a)

/-- The same field, or the same value. -/
def same : Operand → Operand → Bool
  | field a, field b => a == b
  | value a, value b => a.same b
  | _, _ => false

/-- A field stands for itself, a value is written as a literal. -/
def explained : Operand → String
  | field name => name
  | value literal => literal.explained

end Operand

/-- A single comparison. -/
structure Comparison where
  left : Operand
  operator : Operator
  right : Option Operand
  right_eq_none : operator.takesValue = false → right = none

instance : Inhabited Comparison := ⟨⟨default, .isNull, none, fun _ => rfl⟩⟩

namespace Comparison

/-- The comparison of two operands, the right one dropped if the operator takes
no value. -/
def of (left : Operand) (operator : Operator) (right : Option Operand) : Comparison where
  left
  operator
  right := if operator.takesValue then right else none
  right_eq_none h := by simp [h]

/-- A field compared with an operand. -/
def on (field : String) (operator : Operator) (value : Operand) : Comparison :=
  of (.field field) operator (some value)

/-- The fields on the two sides, left before right. -/
def fields (c : Comparison) : List String :=
  c.left.field?.toList ++ (c.right.bind Operand.field?).toList

/-- The same operands around the same operator. -/
def same (c d : Comparison) : Bool :=
  c.left.same d.left && c.operator == d.operator &&
    match c.right, d.right with
    | none, none => true
    | some a, some b => a.same b
    | _, _ => false

/-- The explained form of a comparison. -/
def explained (c : Comparison) : String :=
  let right := (c.right.map Operand.explained).getD ""
  c.left.explained ++ " " ++ c.operator.token ++ if right.isEmpty then "" else " " ++ right

end Comparison

end WhereClause
