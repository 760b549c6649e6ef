/-
WhereClause/Json/Config.lean

Configurations as JSON, and in files.

A configuration is written as an object.  On reading every key may be missing
and then has its default, and unknown keys are ignored, whatever stands under
them.  A known key must not occur twice, and its value must be of the right
kind: only `allow_fields` may be null, which is the same as if it were missing.
Instead of an object there may be an array of the values in a fixed order, of
which the last ones may be missing.
-/
import WhereClause.Config
import WhereClause.Json.Reader

namespace WhereClause

namespace Config

/-! ### Reading -/

/-- The texts in an array of strings. -/
def texts? (items : List Json) : Option (List String) :=
  items.mapM Json.text?

/-- The value of `dialect`. -/
def dialect? (value : Json) : Option Sql.Dialect := do
  Sql.Dialect.ofName? (← value.name?)

/-- The value of `columns`: an object of strings; of equal keys the last one
counts. -/
def columns? : Json → Option (Table String)
  | .object entries => do
      let renames ← entries.mapM fun (key, value) => do return (← key, ← value.text?)
      return .ofList renames
  | _ => none

/-- The value of `allow_fields`. -/
def allowFields? : Json → Option (Option (List String))
  | .null => some none
  | .array items => (texts? items).map some
  | _ => none

/-- Read the values of a configuration, any of which may be missing. -/
def ofParts? (table dialect columns allowFields : Option Json) : Option Config := do
  let standard : Config := {}
  let read {α : Type} (part : Option Json) (value? : Json → Option α) (missing : α) : Option α :=
    part.elim (some missing) value?
  return {
    table := ← read table Json.text? standard.table
    dialect := ← read dialect dialect? standard.dialect
    columns := ← read columns columns? standard.columns
    allowFields := ← read allowFields allowFields? standard.allowFields }

/-- The value under a key that must not occur twice; `none` if it does. -/
def unique? (entries : List (String × Json)) (key : String) : Option (Option Json) :=
  match entries.filter fun entry => entry.1 == key with
  | [] => some none
  | [entry] => some (some entry.2)
  | _ => none

/-- The configuration that a value stands for. -/
def ofValue? : Json → Option Config
  | .object entries => do
      let entries ← entries.mapM fun (key, value) => do return (← key, value)
      ofParts? (← unique? entries "table") (← unique? entries "dialect")
        (← unique? entries "columns") (← unique? entries "allow_fields")
  | .array items =>
      if items.length ≤ 4 then ofParts? items[0]? items[1]? items[2]? items[3]? else none
  | _ => none

/-- The configuration that a JSON text stands for. -/
def ofJson? (s : String) : Option Config := do
  ofValue? (← Json.ofText? s)

/-! ### Writing -/

/-- Texts with commas between them. -/
def commaSeparated : List (List Char) → List Char
  | [] => []
  | [text] => text
  | text :: rest => text ++ ',' :: commaSeparated rest

/-- An entry of an object. -/
def entryText (key : String) (value : List Char) : List Char :=
  Json.quoted key ++ ':' :: value

/-- An object with the given entries. -/
def objectText (entries : List (List Char)) : List Char :=
  '\x7b' :: commaSeparated entries ++ ['\x7d']

/-- The text of some column names. -/
def columnsText (columns : List (String × String)) : List Char :=
  objectText (columns.map fun (field, column) => entryText field (Json.quoted column))

/-- The text of the list of allowed fields. -/
def allowFieldsText : Option (List String) → List Char
  | none => "null".toList
  | some fields => '[' :: commaSeparated (fields.map Json.quoted) ++ [']']

/-- The texts of the entries of a configuration, its columns in the given
order. -/
def entryTexts (c : Config) (columns : List (String × String)) : List (List Char) :=
  [entryText "table" (Json.quoted c.table),
    entryText "dialect" (Json.quoted c.dialect.name),
    entryText "columns" (columnsText columns),
    entryText "allow_fields" (allowFieldsText c.allowFields)]

/-- The JSON text of a configuration, with all its keys and without blanks. -/
def toJson (c : Config) : String :=
  String.ofList (objectText (c.entryTexts c.columns.entries))

end Config

/-! ### Configuration files -/

/-- What is found under the path of a configuration file. -/
inductive ConfigFile where
  | missing
  | unreadable
  | bytes (content : ByteArray)

/-- The reasons for which no configuration is read from a file. -/
inductive ConfigError where
  | notFound (path : String)
  | unreadable
  | malformed
  deriving DecidableEq, Repr

/-- The message of a missing file. -/
def ConfigError.notFoundMessage (path : String) : String :=
  "config file not found: " ++ path

/-- The configuration in a file, which has to be valid UTF-8. -/
def Config.ofFile (path : String) : ConfigFile → Except ConfigError Config
  | .missing => .error (.notFound path)
  | .unreadable => .error .unreadable
  | .bytes content =>
      match String.fromUTF8? content with
      | none => .error .unreadable
      | some text =>
          match Config.ofJson? text with
          | some config => .ok config
          | none => .error .malformed

end WhereClause
