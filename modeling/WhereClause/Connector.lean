/-
WhereClause/Connector.lean

The two connectors of a where clause.  A group joins its members with exactly
one of them; the written forms `and` and `or` appear in explained filters, in
error messages and in JSON.
-/

namespace WhereClause

/-- A connector between the members of one group. -/
inductive Connector where
  | and
  | or
  deriving DecidableEq, Repr, Inhabited

namespace Connector

/-- The written form of a connector. -/
def text : Connector → String
  | and => "and"
  | or => "or"

/-- The connector that a text names, in lower case only. -/
def ofText? : String → Option Connector
  | "and" => some and
  | "or" => some or
  | _ => none

end Connector

end WhereClause
