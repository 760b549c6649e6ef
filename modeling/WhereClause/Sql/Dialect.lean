/-
WhereClause/Sql/Dialect.lean

The three dialects of SQL and what they disagree about: the quotes around names,
and the way in which texts are quoted.

A name stands in quotes, and the closing quote is doubled inside.  A text of
SQLite stands in single quotes, which are doubled inside, and nothing else is
special.  The two other dialects put a backslash before backslashes and quotes
and write control characters as escapes; PostgreSQL marks such a text by an `E`.
-/

namespace WhereClause.Sql

/-- A dialect of SQL. -/
inductive Dialect where
  | postgres
  | mysql
  | sqlite
  deriving DecidableEq, Repr, Inhabited

namespace Dialect

/-- The name of a dialect in a configuration. -/
def name : Dialect → String
  | postgres => "postgres"
  | mysql => "mysql"
  | sqlite => "sqlite"

/-- The name of a dialect in running text. -/
def title : Dialect → String
  | postgres => "Postgres"
  | mysql => "Mysql"
  | sqlite => "Sqlite"

/-- The dialect with a given name. -/
def ofName? : String → Option Dialect
  | "postgres" => some postgres
  | "mysql" => some mysql
  | "sqlite" => some sqlite
  | _ => none

@[simp] theorem ofName?_name (d : Dialect) : ofName? d.name = some d := by
  cases d <;> rfl

/-! ### Names -/

/-- The quote around names. -/
def nameQuote : Dialect → Char
  | mysql => '`'
  | _ => '"'

/-- Characters with every occurrence of `quote` doubled. -/
def doubled (quote : Char) (cs : List Char) : List Char :=
  cs.flatMap fun c => if c = quote then [c, c] else [c]

/-- A name in quotes. -/
def quoteName (d : Dialect) (s : String) : String :=
  String.ofList (d.nameQuote :: doubled d.nameQuote s.toList ++ [d.nameQuote])

/-! ### Texts -/

/-- The escaped form of a character. -/
def escapeChar (c : Char) : List Char :=
  match c with
  | '\\' => ['\\', '\\']
  | '"' => ['\\', '"']
  | '\'' => ['\\', '\'']
  | '\x00' => ['\\', '0']
  | '\x08' => ['\\', 'b']
  | '\t' => ['\\', 't']
  | '\x1a' => ['\\', 'z']
  | '\n' => ['\\', 'n']
  | '\r' => ['\\', 'r']
  | c => [c]

/-- A text in quotes. -/
def quoteText (d : Dialect) (s : String) : String :=
  match d with
  | sqlite => String.ofList ('\'' :: doubled '\'' s.toList ++ ['\''])
  | mysql => String.ofList ('\'' :: s.toList.flatMap escapeChar ++ ['\''])
  | postgres =>
      let escaped := s.toList.flatMap escapeChar
      let quoted := '\'' :: escaped ++ ['\'']
      String.ofList (if escaped.contains '\\' then 'E' :: quoted else quoted)

end Dialect

end WhereClause.Sql
