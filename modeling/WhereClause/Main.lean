/-
WhereClause/Main.lean

The command line: an optional path of a configuration file, and the lines of the
standard input.  Everything that is decided is decided by `Transcript.runWith`.
-/
import WhereClause.Shell.Transcript

open WhereClause WhereClause.Shell

/-- What is found under a path. -/
def findConfigFile (path : String) : IO ConfigFile := do
  try
    return .bytes (← IO.FS.readBinFile path)
  catch
    | .noFileOrDirectory .. => return .missing
    | _ => return .unreadable

/-- The bytes of a stream up to its end, after those read so far. -/
partial def readRest (stream : IO.FS.Stream) (soFar : ByteArray) : IO ByteArray := do
  let chunk ← stream.read 4096
  if chunk.isEmpty then return soFar
  readRest stream (soFar ++ chunk)

/-- Run the shell on the standard input. -/
def main (args : List String) : IO UInt32 := do
  let file ← args.head?.mapM fun path => return (path, ← findConfigFile path)
  let input ← readRest (← IO.getStdin) ByteArray.empty
  let transcript := Transcript.runWith file input
  IO.print transcript.output
  IO.eprint transcript.errors
  return transcript.code.toUInt32
