/-
WhereClause/Shell/Command.lean

The lines that are typed at the shell.

A line that starts with a colon is a command by name.  Any other line adds a
comparison: an optional `or`, a field, an operator of at most three words, and a
value.  Of several operators that could be meant the longest is.  The value is
what is left of the line, its words joined by single blanks: a literal if that
is the JSON text of one, and otherwise the text itself.
-/
import WhereClause.Json.Literal
import WhereClause.Refusal

namespace WhereClause.Shell

/-- What a line asks for. -/
inductive Command where
  | add (connector : Connector) (field : String) (operator : Operator) (value : Literal)
  | explain
  | sql
  | reset
  | help
  | quit
  deriving Repr

/-- The reasons for which a line is not understood. -/
inductive Misread where
  | unknownCommand (name : String)
  | incomplete
  | noOperator (field : String)
  | noValue (operator : Operator)
  deriving DecidableEq, Repr

/-- The message of a line that is not understood. -/
def Misread.message : Misread → String
  | unknownCommand name => "unknown command `:" ++ name ++ "`"
  | incomplete => "expected `<field> <operator> <value>`"
  | noOperator field => "no operator after `" ++ field ++ "`"
  | noValue operator => "operator `" ++ operator.token ++ "` needs a value"

namespace Command

/-- The greatest number of words in the spelling of an operator. -/
def operatorWords : Nat := 3

/-- Words with single blanks between them. -/
def joined (words : List String) : String :=
  " ".intercalate words

/-- The operator spelled by the most of the first `n` words, and the words after
it. -/
def longestOperator (words : List String) : (n : Nat) → Option (Operator × List String)
  | 0 => none
  | n + 1 =>
      match Operator.ofText? (joined (words.take (n + 1))) with
      | some operator => some (operator, words.drop (n + 1))
      | none => longestOperator words n

/-- Whether a word is `or` in any mixture of cases. -/
def isOr (word : String) : Bool :=
  word.toList.map Char.toLower == ['o', 'r']

/-- The connector that leads a line, and the words after it. -/
def leadingConnector : List String → Connector × List String
  | word :: rest => if isOr word then (.or, rest) else (.and, word :: rest)
  | [] => (.and, [])

/-- The value that is meant by a text. -/
def valueOf (text : String) : Literal :=
  (Literal.ofJson? text).getD (.text text)

/-- The comparison that the words of a line ask for. -/
def ofWords (words : List String) : Except Misread Command :=
  let (connector, words) := leadingConnector words
  match words with
  | [] => .error .incomplete
  | field :: rest =>
      match longestOperator rest (min operatorWords rest.length) with
      | none => .error (.noOperator field)
      | some (operator, rest) =>
          if !operator.takesValue then .ok (.add connector field operator .null)
          else if rest.isEmpty then .error (.noValue operator)
          else .ok (.add connector field operator (valueOf (joined rest)))

/-- The command with a given name. -/
def named (name : String) : Except Misread Command :=
  match name with
  | "explain" => .ok .explain
  | "sql" => .ok .sql
  | "reset" => .ok .reset
  | "help" => .ok .help
  | "quit" | "exit" => .ok .quit
  | name => .error (.unknownCommand name)

/-- What a line asks for. -/
def ofLine (line : String) : Except Misread Command :=
  match Text.trimmed line.toList with
  | ':' :: name => named (Text.trim (String.ofList name))
  | cs => ofWords ((Text.cut [] cs).map String.ofList)

end Command

end WhereClause.Shell
