/-
WhereClause/Config.lean

The configuration of a compiler: the table that is queried, the dialect, other
column names for fields, and the fields that filters may mention.

An empty list of allowed fields forbids all fields, while a missing one allows
all (`Config.allowList`).  Columns are the fields' own names unless the
configuration says otherwise, so compiling is planning under a mapping that
renames every field once and leaves the values alone.
-/
import WhereClause.Filter
import WhereClause.Sql.Select

namespace WhereClause

/-- The configuration of a compiler. -/
structure Config where
  table : String := "items"
  dialect : Sql.Dialect := .postgres
  /-- The columns of the fields that are not called like their column. -/
  columns : Table String := Table.empty
  allowFields : Option (List String) := none
  deriving DecidableEq

instance : Inhabited Config := ⟨{}⟩

namespace Config

/-- The column of a field. -/
def columnName (c : Config) (field : String) : String :=
  (c.columns.get? field).getD field

/-- The fields that a filter may mention. -/
def allowList (c : Config) : AllowList :=
  match c.allowFields with
  | some fields => .ofList fields
  | none => .all

/-- A filter without constraints and conditions. -/
def newFilter (c : Config) : Filter :=
  .limited c.allowList

/-! ### Compiling -/

/-- Fields are renamed to their columns, and values stay as they are. -/
def mapping (c : Config) : Mapping where
  rename := some c.columnName

/-- The statement for a formula. -/
def select (c : Config) (f : Formula) : Except Refusal Sql.Select := do
  let clauses ← Sql.addItems (f.items c.mapping) {}
  return ⟨c.table, clauses.condition?⟩

/-- The text of the statement for a formula. -/
def compile (c : Config) (f : Formula) : Except Refusal String :=
  return (← c.select f).text c.dialect

end Config

end WhereClause
