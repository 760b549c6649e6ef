/-
WhereClause/Sql/Select.lean

Statements and their text.

A statement selects all columns of one table, under a condition or without one.
Its text is made of pieces: quoted names, quoted texts, and everything else,
which no name and no text can influence.  Only the quoting depends on the
dialect (`Piece.text`).

An item of a join stands in parentheses if it is a join itself, unless it is the
first item and has the same connector.  A membership test among no values is
written as a comparison that is false, or true if negated.
-/
import WhereClause.Sql.Condition
import WhereClause.Sql.Dialect

namespace WhereClause.Sql

/-- A piece of the text of a statement. -/
inductive Piece where
  | name (name : String)
  | quoted (text : String)
  | plain (text : String)
  deriving DecidableEq, Repr

/-- The text of a piece in a dialect. -/
def Piece.text (d : Dialect) : Piece → String
  | name s => d.quoteName s
  | quoted s => d.quoteText s
  | plain s => s

/-! ### Tests -/

/-- The piece of a constant. -/
def Constant.piece : Constant → Piece
  | null => .plain "NULL"
  | bool b => .plain (if b then "TRUE" else "FALSE")
  | int n => .plain (Literal.intText n)
  | float x => .plain (Literal.floatText x)
  | text s => .quoted s

/-- The piece of one side of a test. -/
def Term.piece : Term → Piece
  | column name => .name name
  | constant value => value.piece

/-- A comparator as an SQL operator. -/
def symbol : Comparator → String
  | .like => "LIKE"
  | comparator => comparator.text

/-- The pieces of constants with commas between them. -/
def listed : List Constant → List Piece
  | [] => []
  | [value] => [value.piece]
  | value :: rest => value.piece :: .plain ", " :: listed rest

/-- The pieces of a test. -/
def Atom.pieces : Atom → List Piece
  | compare left comparator right =>
      [left.piece, .plain (" " ++ symbol comparator ++ " "), right.piece]
  | isIn _ [] negated => [.plain (if negated then "1 = 1" else "1 = 2")]
  | isIn left values negated =>
      left.piece :: .plain (if negated then " NOT IN (" else " IN (") :: listed values ++
        [.plain ")"]
  | isNull left negated => [left.piece, .plain (if negated then " IS NOT NULL" else " IS NULL")]

/-! ### Conditions -/

/-- A connector between the items of a join. -/
def between : Connector → Piece
  | .and => .plain " AND "
  | .or => .plain " OR "

/-- Whether an item of a join goes without parentheses. -/
def bare (connector : Connector) (first : Bool) : Condition → Bool
  | .atom _ => true
  | .join inner _ => first && inner == connector

mutual

/-- The pieces of a condition. -/
def Condition.pieces : Condition → List Piece
  | .atom atom => atom.pieces
  | .join _ [item] => item.pieces
  | .join connector items => itemPieces connector true items

/-- The pieces of items of a join, the connector before each but the first. -/
def itemPieces (connector : Connector) (first : Bool) : List Condition → List Piece
  | [] => []
  | item :: rest =>
      (if first then [] else [between connector]) ++
        (if bare connector first item then item.pieces
          else .plain "(" :: item.pieces ++ [.plain ")"]) ++
        itemPieces connector false rest

end

/-! ### Statements -/

/-- A statement. -/
structure Select where
  table : String
  condition : Option Condition

namespace Select

/-- The pieces of a statement. -/
def pieces (s : Select) : List Piece :=
  .plain "SELECT * FROM " :: .name s.table ::
    match s.condition with
    | some condition => .plain " WHERE " :: condition.pieces
    | none => []

/-- The text of a statement in a dialect. -/
def text (s : Select) (d : Dialect) : String :=
  String.join (s.pieces.map (Piece.text d))

end Select

end WhereClause.Sql
