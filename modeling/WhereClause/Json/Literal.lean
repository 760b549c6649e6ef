/-
WhereClause/Json/Literal.lean

Literals and connectors as JSON.

Every kind of literal has its own kind of JSON value, and objects are no
literals.  A number that is an integer of 64 bits is read as one, and any other
number as a floating point number.  A text may nest arrays at most 127 deep.

Written floating point numbers always show that they are not integers, by a
point or by an exponent; a number without a decimal is written as null.
-/
import WhereClause.Connector
import WhereClause.Json.Reader
import WhereClause.Literal

namespace WhereClause

namespace Json

/-- The literal that a number stands for. -/
def Number.literal? (n : Number) : Option Literal :=
  match n.int? with
  | some value => some (.int value)
  | none => n.float?.map .float

mutual

/-- The literal that a value stands for. -/
def literal? : Json → Option Literal
  | null => some .null
  | bool b => some (.bool b)
  | number n => n.literal?
  | string text => text.map .text
  | array items => (literals? items).map .list
  | object _ => none

/-- The literals that some values stand for, if all of them do. -/
def literals? : List Json → Option (List Literal)
  | [] => some []
  | item :: rest => do return (← item.literal?) :: (← literals? rest)

end

/-- The greatest depth of a value that is read as a literal. -/
def depthLimit : Nat := 127

end Json

namespace Literal

/-- The literal that a JSON text stands for. -/
def ofJson? (s : String) : Option Literal := do
  let value ← Json.ofText? s
  if value.depth ≤ Json.depthLimit then value.literal? else none

/-! ### Writing -/

/-- Numbers in JSON keep a point and a zero, and have an exponent unless the
exponent of their first digit lies between -5 and 15. -/
def jsonLayout : Decimal.Layout := ⟨.toEven, true, some (-5, 15)⟩

/-- A floating point number in JSON. -/
def jsonFloat (x : Float) : String :=
  match Decimal.Reading.ofFloat x with
  | .finite negative significand exponent tight =>
      jsonLayout.finite negative significand exponent tight
  | _ => "null"

mutual

/-- The JSON text of a literal, without any blanks. -/
def json : Literal → List Char
  | null => "null".toList
  | bool b => (boolText b).toList
  | int n => (intText n).toList
  | float x => (jsonFloat x).toList
  | text s => Json.quoted s
  | list [] => ['[', ']']
  | list (item :: rest) => '[' :: item.json ++ jsonRest rest ++ [']']

/-- The JSON texts of the later members of a list, with a comma before each. -/
def jsonRest : List Literal → List Char
  | [] => []
  | item :: rest => ',' :: item.json ++ jsonRest rest

end

/-- The JSON text of a literal. -/
def toJson (l : Literal) : String :=
  String.ofList l.json

end Literal

namespace Connector

/-- The connector that a JSON text stands for. -/
def ofJson? (s : String) : Option Connector := do
  ofText? (← (← Json.ofText? s).name?)

/-- The JSON text of a connector. -/
def toJson (k : Connector) : String :=
  String.ofList (Json.quoted k.text)

end Connector

end WhereClause
