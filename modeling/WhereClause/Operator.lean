/-
WhereClause/Operator.lean

The comparison operators.  Each has one token, used in explained filters and in
error messages, and several accepted spellings.  A spelling is read without
regard to case and to blanks at its ends (`Operator.ofText?`).

`ofText?_token` says that every token is read back as its operator.
-/
import WhereClause.Text.Blank
import WhereClause.Text.UpperCase

namespace WhereClause

/-- The operators of a comparison. -/
inductive Operator where
  | equal
  | notEqual
  | greater
  | greaterEqual
  | less
  | lessEqual
  | isIn
  | notIn
  | isNull
  | notNull
  | contains
  | startsWith
  | endsWith
  deriving DecidableEq, Repr, Inhabited

namespace Operator

/-- The text that stands for an operator wherever one is written. -/
def token : Operator → String
  | equal => "="
  | notEqual => "!="
  | greater => ">"
  | greaterEqual => ">="
  | less => "<"
  | lessEqual => "<="
  | isIn => "in"
  | notIn => "not in"
  | isNull => "is null"
  | notNull => "not null"
  | contains => "contain"
  | startsWith => "start with"
  | endsWith => "end with"

/-- The tests for null compare with nothing; every other operator takes a value. -/
def takesValue : Operator → Bool
  | isNull | notNull => false
  | _ => true

/-- The spellings of the operators, in upper case. -/
def spellings : List (String × Operator) :=
  [(">", greater), (">=", greaterEqual), ("<", less), ("<=", lessEqual), ("=", equal),
    ("!=", notEqual), ("<>", notEqual), ("IN", isIn), ("NOT IN", notIn), ("NOT_IN", notIn),
    ("IS NULL", isNull), ("IS_NULL", isNull), ("NULL", isNull), ("IS NOT NULL", notNull),
    ("IS_NOT_NULL", notNull), ("NOT NULL", notNull), ("NOT_NULL", notNull), ("CONTAIN", contains),
    ("CONTAINS", contains), ("START WITH", startsWith), ("START_WITH", startsWith),
    ("END WITH", endsWith), ("END_WITH", endsWith)]

/-- The operator that a text spells. -/
def ofText? (s : String) : Option Operator :=
  spellings.lookup (Text.upper (Text.trim s))

theorem ofText?_token (op : Operator) : ofText? op.token = some op := by
  cases op <;> decide +kernel

end Operator

end WhereClause
