/-
WhereClause/Literal.lean

The constant values that fields are compared with.

* `Literal` has one constructor per kind of value; integers are 64-bit words
  and lists may be nested.
* `ToLiteral` turns the values of ordinary types into literals: an absent
  optional value becomes null, a list becomes the list of its members.
* `Literal.same` is equality as a database user sees it: numbers are compared
  as numbers, so that a NaN differs from itself and the two zeros agree.
* `Literal.text` is the explained form.  Texts stand in quotes, without any
  escaping, except as members of a list, where they are bare.
-/
import WhereClause.Decimal.Layout

namespace WhereClause

/-- A constant value. -/
inductive Literal where
  | null
  | bool (value : Bool)
  | int (value : Int64)
  | float (value : Float)
  | text (value : String)
  | list (items : List Literal)
  deriving Repr, Inhabited

/-- Types whose values can be compared with a field. -/
class ToLiteral (α : Type) where
  toLiteral : α → Literal

export ToLiteral (toLiteral)

instance : ToLiteral Literal := ⟨id⟩
instance : ToLiteral Bool := ⟨.bool⟩
instance : ToLiteral Int32 := ⟨fun n => .int n.toInt64⟩
instance : ToLiteral UInt32 := ⟨fun n => .int n.toUInt64.toInt64⟩
instance : ToLiteral Int64 := ⟨.int⟩
instance : ToLiteral Float := ⟨.float⟩
instance : ToLiteral String := ⟨.text⟩
instance {α : Type} [ToLiteral α] : ToLiteral (List α) := ⟨fun items => .list (items.map toLiteral)⟩
instance {α : Type} [ToLiteral α] : ToLiteral (Option α) := ⟨fun value => value.elim .null toLiteral⟩

namespace Literal

/-- Whether a value is null. -/
def isNull : Literal → Bool
  | null => true
  | _ => false

/-! ### Sameness -/

mutual

/-- The same kind and the same value, numbers compared as numbers. -/
def same : Literal → Literal → Bool
  | null, null => true
  | bool a, bool b => a == b
  | int a, int b => a == b
  | float a, float b => a == b
  | text a, text b => a == b
  | list as, list bs => sameItems as bs
  | _, _ => false

/-- As many members, the same at each position. -/
def sameItems : List Literal → List Literal → Bool
  | [], [] => true
  | a :: as, b :: bs => a.same b && sameItems as bs
  | _, _ => false

end

/-! ### The explained form -/

/-- Explained numbers are written out in full, a whole number without a point. -/
def layout : Decimal.Layout := ⟨.up, false, none⟩

/-- A number of either kind in its explained form. -/
def floatText (x : Float) : String :=
  match Decimal.Reading.ofFloat x with
  | .nan => "NaN"
  | .infinite false => "inf"
  | .infinite true => "-inf"
  | .finite negative significand exponent tight =>
      layout.finite negative significand exponent tight

/-- The words for the truth values. -/
def boolText (b : Bool) : String :=
  if b then "true" else "false"

/-- The decimal digits of a word, with a sign if it is negative. -/
def intText (n : Int64) : String :=
  toString n.toInt

mutual

/-- The explained form of a value. -/
def explained : Literal → String
  | null => "null"
  | bool b => boolText b
  | int n => intText n
  | float x => floatText x
  | text s => "\"" ++ s ++ "\""
  | list items => ",".intercalate (explainedItems items)

/-- The explained forms of the members of a list: a text stands bare. -/
def explainedItems : List Literal → List String
  | [] => []
  | text s :: rest => s :: explainedItems rest
  | item :: rest => item.explained :: explainedItems rest

end

end Literal

end WhereClause
