/-
WhereClause/Shell/Backspace.lean

Backspaces in a line of input.  A backspace takes back the user-perceived
character before it that is still there, and does nothing if there is none.

What it takes back is measured in bytes: for each character kept, one byte holds
the length of its UTF-8 form, so that a length of 256 or more counts modulo 256.
Then only the end of the character goes.  If that end would begin within a code
point, the line has no reading at all.
-/
import WhereClause.Text.Cluster

namespace WhereClause.Shell

/-- The length that is noted for a cluster: the bytes of its UTF-8 form, modulo
256. -/
def notedLength (cluster : List Char) : Nat :=
  cluster.foldr (fun c n => c.utf8Size + n) 0 % 256

/-- Drop the first `n` bytes of a text, if they are the bytes of whole
characters. -/
def dropBytes : (n : Nat) → List Char → Option (List Char)
  | 0, cs => some cs
  | _ + 1, [] => none
  | n + 1, c :: cs => if c.utf8Size ≤ n + 1 then dropBytes (n + 1 - c.utf8Size) cs else none

/-- The text that is left of some clusters.  `kept` holds the characters kept so
far and `lengths` the lengths noted for them, both latest first. -/
def erasedAfter (kept : List Char) (lengths : List Nat) : List (List Char) → Option (List Char)
  | [] => some kept.reverse
  | ['\x08'] :: rest =>
      match lengths with
      | [] => erasedAfter kept [] rest
      | n :: lengths => (dropBytes n kept).bind fun kept => erasedAfter kept lengths rest
  | cluster :: rest =>
      erasedAfter (cluster.reverse ++ kept) (notedLength cluster :: lengths) rest

/-- What is left of a line after its backspaces. -/
def erased (line : List Char) : Option (List Char) :=
  erasedAfter [] [] (Text.clusters line)

end WhereClause.Shell
