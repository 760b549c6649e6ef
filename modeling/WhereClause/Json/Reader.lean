/-
WhereClause/Json/Reader.lean

Reading JSON text.  The whole text has to be one value, with blanks allowed
around it and between its parts; the format knows four blanks.  Nothing outside
the format is accepted: no comments, no trailing commas, no bare words.

Each reader returns a value and the text that follows it.  Values nest, so the
readers carry a bound on the number of their calls; twice the length of the text
is more than they can use.
-/
import WhereClause.Json.Number
import WhereClause.Json.Quoted

namespace WhereClause.Json

/-- A blank between the parts of a JSON text. -/
def isGap (c : Char) : Bool :=
  c == ' ' || c == '\n' || c == '\t' || c == '\r'

/-- What follows the leading blanks. -/
def skip (cs : List Char) : List Char :=
  cs.dropWhile isGap

/-- Read a string after its opening quote. -/
def readString (cs : List Char) : Option (Option String × List Char) := do
  let (marks, rest) ← body cs
  return ((assemble marks).map String.ofList, rest)

mutual

/-- Read a value. -/
def readValue : (calls : Nat) → List Char → Option (Json × List Char)
  | 0, _ => none
  | calls + 1, cs =>
      match skip cs with
      | 'n' :: 'u' :: 'l' :: 'l' :: rest => some (null, rest)
      | 't' :: 'r' :: 'u' :: 'e' :: rest => some (bool true, rest)
      | 'f' :: 'a' :: 'l' :: 's' :: 'e' :: rest => some (bool false, rest)
      | '"' :: rest => do
          let (text, rest) ← readString rest
          return (string text, rest)
      | '[' :: rest =>
          match skip rest with
          | ']' :: rest => some (array [], rest)
          | rest => do
              let (items, rest) ← readItems calls rest
              return (array items, rest)
      | '\x7b' :: rest =>
          match skip rest with
          | '\x7d' :: rest => some (object [], rest)
          | rest => do
              let (entries, rest) ← readEntries calls rest
              return (object entries, rest)
      | rest => do
          let (n, rest) ← Number.read rest
          return (number n, rest)

/-- Read the values of an array and its closing bracket. -/
def readItems : (calls : Nat) → List Char → Option (List Json × List Char)
  | 0, _ => none
  | calls + 1, cs => do
      let (item, rest) ← readValue calls cs
      match skip rest with
      | ']' :: rest => return ([item], rest)
      | ',' :: rest =>
          let (items, rest) ← readItems calls rest
          return (item :: items, rest)
      | _ => none

/-- Read the entries of an object and its closing brace. -/
def readEntries : (calls : Nat) → List Char → Option (List (Option String × Json) × List Char)
  | 0, _ => none
  | calls + 1, cs =>
      match skip cs with
      | '"' :: rest => do
          let (key, rest) ← readString rest
          match skip rest with
          | ':' :: rest =>
              let (value, rest) ← readValue calls rest
              match skip rest with
              | '\x7d' :: rest => return ([(key, value)], rest)
              | ',' :: rest =>
                  let (entries, rest) ← readEntries calls rest
                  return ((key, value) :: entries, rest)
              | _ => none
          | _ => none
      | _ => none

end

/-- The value of a JSON text. -/
def ofText? (s : String) : Option Json := do
  let (value, rest) ← readValue (2 * s.toList.length + 2) s.toList
  if skip rest = [] then some value else none

end WhereClause.Json
