/-
WhereClause/Call.lean

The elementary tests of a query, as they are handed to whatever builds it: a
comparison of two operands, membership in a list of values, or a test for null.

A comparison becomes one such call (`Comparison.call`).  On the way a `Mapping`
may rename the fields and replace the values that are compared with a field; a
value is looked up under the name that the field has before it is renamed.  The
operators on texts become comparisons with a pattern in which `%` stands for any
sequence of characters.

A comparison whose operands do not suit its operator is refused.
-/
import WhereClause.Comparison
import WhereClause.Refusal

namespace WhereClause

/-- The comparisons that a query knows. -/
inductive Comparator where
  | equal
  | notEqual
  | greater
  | greaterEqual
  | less
  | lessEqual
  | like
  deriving DecidableEq, Repr

namespace Comparator

/-- The text of a comparator. -/
def text : Comparator → String
  | equal => "="
  | notEqual => "<>"
  | greater => ">"
  | greaterEqual => ">="
  | less => "<"
  | lessEqual => "<="
  | like => "like"

/-- The operator that is named when a comparison is refused. -/
def operator : Comparator → Operator
  | equal => .equal
  | notEqual => .notEqual
  | greater => .greater
  | greaterEqual => .greaterEqual
  | less => .less
  | lessEqual => .lessEqual
  | like => .contains

/-- All comparators. -/
def every : List Comparator :=
  [equal, notEqual, greater, greaterEqual, less, lessEqual, like]

/-- The comparator with a given text. -/
def ofText? (s : String) : Option Comparator :=
  every.find? fun c => c.text == s

end Comparator

/-- An elementary test of a query. -/
inductive Call where
  | compare (left : Operand) (comparator : Comparator) (right : Operand)
  | isIn (field : Operand) (values : List Literal) (negated : Bool)
  | isNull (field : Operand) (negated : Bool)
  deriving Repr

/-! ### Mapping operands -/

/-- How fields are renamed and values replaced on the way into a query. -/
structure Mapping where
  /-- The new name of a field. -/
  rename : Option (String → String) := none
  /-- What becomes of a value that is compared with a field of the given name. -/
  replace : Option (String → Literal → Literal) := none

namespace Mapping

/-- The image of an operand, where `opposite` is the field on the other side. -/
def operand (m : Mapping) (opposite : Option String) : Operand → Operand
  | .field name => .field ((m.rename.getD id) name)
  | .value literal =>
      match m.replace, opposite with
      | some replace, some field => .value (replace field literal)
      | _, _ => .value literal

/-- The image of the left side of a comparison. -/
def left (m : Mapping) (c : Comparison) : Operand :=
  m.operand (c.right.bind Operand.field?) c.left

/-- The image of the right side of a comparison. -/
def right (m : Mapping) (c : Comparison) : Option Operand :=
  c.right.map (m.operand c.left.field?)

/-- How a mapping shows itself: by which of its parts are there. -/
def shown (m : Mapping) : String :=
  "QueryCompiler \x7b name_mapper: " ++ Literal.boolText m.rename.isSome ++
    ", value_mapper: " ++ Literal.boolText m.replace.isSome ++ " \x7d"

end Mapping

/-! ### The call of a comparison -/

/-- The values among which a membership test looks; a single value counts as a
list of one. -/
def memberValues : Option Operand → Except Unfit (List Literal)
  | some (.value (.list values)) => .ok values
  | some (.value value) => .ok [value]
  | some (.field _) => .error .fieldReference
  | none => .error .missing

/-- The text that a pattern is made from.  The name of a field counts as text. -/
def patternText : Option Operand → Except Unfit String
  | some (.value (.text s)) => .ok s
  | some (.value (.int n)) => .ok (Literal.intText n)
  | some (.value (.float x)) => .ok (Literal.floatText x)
  | some (.value (.bool b)) => .ok (Literal.boolText b)
  | some (.field name) => .ok name
  | some (.value .null) => .error .nullPattern
  | some (.value (.list _)) => .error .listPattern
  | none => .error .missing

/-- The call for two operands and an operator. -/
def callOf (left : Operand) (operator : Operator) (right : Option Operand) : Except Unfit Call :=
  let compare (comparator : Comparator) : Except Unfit Call :=
    match right with
    | some right => .ok (.compare left comparator right)
    | none => .error .missing
  let like (before after : String) : Except Unfit Call := do
    let text ← patternText right
    return .compare left .like (.value (.text (before ++ text ++ after)))
  match operator with
  | .equal => compare .equal
  | .notEqual => compare .notEqual
  | .greater => compare .greater
  | .greaterEqual => compare .greaterEqual
  | .less => compare .less
  | .lessEqual => compare .lessEqual
  | .isIn => return .isIn left (← memberValues right) false
  | .notIn => return .isIn left (← memberValues right) true
  | .isNull => .ok (.isNull left false)
  | .notNull => .ok (.isNull left true)
  | .contains => like "%" "%"
  | .startsWith => like "" "%"
  | .endsWith => like "%" ""

/-- The call of a comparison under a mapping. -/
def Comparison.call (m : Mapping) (c : Comparison) : Except Refusal Call :=
  (callOf (m.left c) c.operator (m.right c)).mapError (.unfit c.operator)

end WhereClause
