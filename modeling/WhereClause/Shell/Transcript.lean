/-
WhereClause/Shell/Transcript.lean

The shell as a program: from the bytes of its input to what it writes and the
code it ends with.

The input is read line by line.  Backspaces are carried out first, blank lines
are passed over, and the program ends at `:quit`, at the end of the input, at a
line that is not valid UTF-8, or where a backspace would cut a code point in two.
What is printed goes to the output, and messages go to the error stream.
-/
import WhereClause.Json.Config
import WhereClause.Shell.Backspace
import WhereClause.Shell.Session

namespace WhereClause.Shell

/-- What a run of the program leaves behind. -/
structure Transcript where
  output : String
  errors : String
  code : UInt8
  deriving DecidableEq, Repr

namespace Transcript

/-- The lines that greet the user. -/
def banner (c : Config) : String :=
  "--- filter_blocks: 过滤条件到 SQL ---\n" ++
  "table: " ++ c.table ++ ", dialect: " ++ c.dialect.title ++ "\n" ++
  "输入 :help 查看用法\n\n"

/-- The lines of an input, cut after each line feed; `carry` holds the bytes of
a line already begun, latest first. -/
def linesAfter (carry : List UInt8) : List UInt8 → List (List UInt8)
  | [] => if carry = [] then [] else [carry.reverse]
  | b :: rest => if b = 10 then carry.reverse :: linesAfter [] rest else linesAfter (b :: carry) rest

/-- Put the reply to a line in front of what follows. -/
def afterReply (reply : Reply) (rest : Transcript) : Transcript :=
  let printed := String.join (reply.printed.map (· ++ "\n"))
  match reply.goesOn with
  | .ok true => { rest with output := printed ++ rest.output }
  | .ok false => ⟨printed, "", 0⟩
  | .error fault =>
      { rest with
        output := printed ++ rest.output
        errors := "✗ " ++ fault.message ++ "\n" ++ rest.errors }

/-- The end at a line that is not valid UTF-8. -/
def badInput : Transcript :=
  ⟨"", "Error: readline failed\n\nCaused by:\n    0: stream did not contain valid UTF-8\n" ++
    "    1: stream did not contain valid UTF-8\n", 1⟩

/-- The end at a backspace that would cut a code point in two. -/
def cutCodePoint : Transcript :=
  ⟨"", "Error: a backspace cuts a code point in two\n", 101⟩

/-- What the lines of an input lead to. -/
def ofLines : List (List UInt8) → Session → Transcript
  | [], _ => ⟨"", "", 0⟩
  | line :: rest, s =>
      match String.fromUTF8? ⟨line.toArray⟩ with
      | none => badInput
      | some text =>
          match erased text.toList with
          | none => cutCodePoint
          | some left =>
              let cs := Text.trimmed left
              if cs = [] then ofLines rest s
              else
                let (s, reply) := s.answer (String.ofList cs)
                afterReply reply (ofLines rest s)

/-- The words for a configuration file that cannot be used. -/
def configErrorText : ConfigError → String
  | .notFound path => ConfigError.notFoundMessage path
  | .unreadable => "cannot read config file"
  | .malformed => "invalid config"

/-- The end before the start, for want of a configuration. -/
def noConfig (path : String) (e : ConfigError) : Transcript :=
  ⟨"", "Error: failed to load config `" ++ path ++ "`\n\nCaused by:\n    " ++ configErrorText e ++
    "\n", 1⟩

/-- A run of the program under a configuration. -/
def run (config : Config) (input : ByteArray) : Transcript :=
  let session := ofLines (linesAfter [] input.toList) (.start config)
  { session with output := banner config ++ session.output }

/-- A run of the program with a configuration file, if a path is given. -/
def runWith (file : Option (String × ConfigFile)) (input : ByteArray) : Transcript :=
  match file with
  | none => run {} input
  | some (path, found) =>
      match Config.ofFile path found with
      | .ok config => run config input
      | .error e => noConfig path e

end Transcript

end WhereClause.Shell
