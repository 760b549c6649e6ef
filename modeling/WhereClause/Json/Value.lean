/-
WhereClause/Json/Value.lean

JSON values as they are read, before it is known what they are meant to be.

Numbers keep their digits, since their kind and their rounding depend on how
they are written.  A string may contain escapes that stand for half of a
surrogate pair; it then has no text.  This is no fault as long as nobody asks
for the text.  Objects keep all their entries in order, also those with equal
keys.
-/

namespace WhereClause

namespace Json

/-- A number as it is written. -/
structure Number where
  negative : Bool
  /-- The digits before the point. -/
  whole : List Char
  /-- The digits after the point; none if there is no point. -/
  fraction : List Char
  exponent : Option Int
  deriving DecidableEq, Repr

end Json

/-- A JSON value. -/
inductive Json where
  | null
  | bool (value : Bool)
  | number (number : Json.Number)
  | string (text : Option String)
  | array (items : List Json)
  | object (entries : List (Option String × Json))

namespace Json

mutual

/-- How many arrays and objects stand around the innermost value, the outermost
value included. -/
def depth : Json → Nat
  | array items => itemsDepth items + 1
  | object entries => entriesDepth entries + 1
  | _ => 0

/-- The greatest depth among some values. -/
def itemsDepth : List Json → Nat
  | [] => 0
  | item :: rest => max item.depth (itemsDepth rest)

/-- The greatest depth among the values of some entries. -/
def entriesDepth : List (Option String × Json) → Nat
  | [] => 0
  | (_, value) :: rest => max value.depth (entriesDepth rest)

end

/-- The text of a string. -/
def text? : Json → Option String
  | string text => text
  | _ => none

/-- The name of a value that stands for one of finitely many names: a string, or
an object whose only entry has that key and no content. -/
def name? : Json → Option String
  | string text => text
  | object [(key, null)] => key
  | _ => none

end Json

end WhereClause
