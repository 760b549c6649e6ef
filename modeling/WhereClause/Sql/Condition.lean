/-
WhereClause/Sql/Condition.lean

The conditions of SQL statements, and how calls become one.

A `Where` collects clauses, each with the connector that ties it to the clause
before.  It is read as SQL reads a flat list: `AND` binds tighter than `OR`, and
the connector of the first clause ties it to nothing.  So the list falls into
runs at each `OR`; the clauses of a run are joined by `AND`, and the runs by
`OR` (`Where.condition?`).  A scope becomes a single clause, or none if nothing
was asked in it.

A condition with one item is no more than this item, and is added to another one
as such (`Condition.collapsed`).

Operands that have no place in SQL are refused.
-/
import WhereClause.Plan

namespace WhereClause.Sql

/-- A constant of SQL. -/
inductive Constant where
  | null
  | bool (value : Bool)
  | int (value : Int64)
  | float (value : Float)
  | text (value : String)
  deriving DecidableEq, Repr

/-- One side of a test. -/
inductive Term where
  | column (name : String)
  | constant (value : Constant)
  deriving DecidableEq, Repr

/-- A test without connectors. -/
inductive Atom where
  | compare (left : Term) (comparator : Comparator) (right : Term)
  | isIn (left : Term) (values : List Constant) (negated : Bool)
  | isNull (left : Term) (negated : Bool)
  deriving DecidableEq, Repr

/-- A condition: a test, or conditions joined by a connector. -/
inductive Condition where
  | atom (atom : Atom)
  | join (connector : Connector) (items : List Condition)

/-- What a condition counts as when it becomes an item of another one. -/
def Condition.collapsed : Condition → Condition
  | join _ [item] => item
  | condition => condition

/-! ### Calls as tests -/

/-- A literal as a constant. -/
def constant : Literal → Except Unfit Constant
  | .null => .ok .null
  | .bool b => .ok (.bool b)
  | .int n => .ok (.int n)
  | .float x => .ok (.float x)
  | .text s => .ok (.text s)
  | .list _ => .error .nestedList

/-- An operand as one side of a test. -/
def term : Operand → Except Unfit Term
  | .field name => .ok (.column name)
  | .value (.list _) => .error .listInComparison
  | .value literal => return .constant (← constant literal)

/-- The test that a call asks for.  A comparison with null asks whether the
other side is null. -/
def atom : Call → Except Unfit Atom
  | .compare left comparator right => do
      let left ← term left
      match comparator, right with
      | .like, .value (.text s) => return .compare left .like (.constant (.text s))
      | .like, _ => throw .otherPattern
      | .equal, .value .null => return .isNull left false
      | .notEqual, .value .null => return .isNull left true
      | comparator, right => return .compare left comparator (← term right)
  | .isIn field values negated =>
      return .isIn (← term field) (← values.mapM constant) negated
  | .isNull field negated => return .isNull (← term field) negated

/-- The operator that is named when a call is refused. -/
def blamed : Call → Operator
  | .compare _ comparator _ => comparator.operator
  | .isIn _ _ negated => if negated then .notIn else .isIn
  | .isNull _ negated => if negated then .notNull else .isNull

/-! ### Lists of clauses -/

/-- Clauses, each with the connector that ties it to the one before. -/
structure Where where
  clauses : List (Connector × Condition) := []

namespace Where

/-- The runs of a list of clauses, where `run` holds those of a run already
begun: a run ends before each clause that is tied by `or`. -/
def runsAfter (run : List Condition) : List (Connector × Condition) → List (List Condition)
  | [] => [run]
  | (.and, clause) :: rest => runsAfter (run ++ [clause]) rest
  | (.or, clause) :: rest => run :: runsAfter [clause] rest

/-- The runs of a list of clauses. -/
def runs : List (Connector × Condition) → List (List Condition)
  | [] => []
  | (_, clause) :: rest => runsAfter [clause] rest

/-- The condition that joins the clauses of a run. -/
def allOf (run : List Condition) : Condition :=
  .join .and (run.map Condition.collapsed)

/-- The condition of a list of clauses, if there are any. -/
def condition? (w : Where) : Option Condition :=
  match runs w.clauses with
  | [] => none
  | [run] => some (allOf run)
  | several => some (.join .or (several.map fun run => (allOf run).collapsed))

/-- Add the clause of a call. -/
def add (w : Where) (connector : Connector) (call : Call) : Except Refusal Where := do
  let atom ← (atom call).mapError (.unfit (blamed call))
  return ⟨w.clauses ++ [(connector, .atom atom)]⟩

/-- Add the clauses of a scope as one clause. -/
def nest (w : Where) (connector : Connector) (inner : Where) : Where :=
  match inner.condition? with
  | some condition => ⟨w.clauses ++ [(connector, condition)]⟩
  | none => w

end Where

mutual

/-- Add the clause of an item. -/
def addItem : Item → Where → Except Refusal Where
  | .call connector call, w => w.add connector call
  | .scope connector body, w => return w.nest connector (← addItems body {})
  | .refuse reason, _ => .error reason

/-- Add the clauses of some items in order. -/
def addItems : List Item → Where → Except Refusal Where
  | [], w => .ok w
  | item :: rest, w => do addItems rest (← addItem item w)

end

end WhereClause.Sql
