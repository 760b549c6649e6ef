/-
WhereClause/Json/Quoted.lean

JSON strings.  `quoted` writes one: quotes and backslashes are escaped, control
characters below the space are written by their short escape if they have one
and by four hexadecimal digits otherwise, and everything else stands for itself.

`body` reads a string after its opening quote.  It takes every escape of the
format, so a text has many written forms.  The result is a list of `Mark`s;
`assemble` puts surrogate pairs together and fails if one half stands alone.
-/

namespace WhereClause.Json

/-! ### Writing -/

/-- The hexadecimal digits of a number below 256, in lower case. -/
def twoHexDigits (n : Nat) : List Char :=
  [Nat.digitChar (n / 16), Nat.digitChar (n % 16)]

/-- The written form of a character within a string. -/
def escaped (c : Char) : List Char :=
  match c with
  | '"' => ['\\', '"']
  | '\\' => ['\\', '\\']
  | '\x08' => ['\\', 'b']
  | '\x0c' => ['\\', 'f']
  | '\n' => ['\\', 'n']
  | '\r' => ['\\', 'r']
  | '\t' => ['\\', 't']
  | c => if c.toNat < 0x20 then '\\' :: 'u' :: '0' :: '0' :: twoHexDigits c.toNat else [c]

/-- The written form of a text. -/
def quoted (s : String) : List Char :=
  '"' :: s.toList.flatMap escaped ++ ['"']

/-! ### Reading -/

/-- What stands at one place of a string: a character, or a code unit given by
its hexadecimal digits. -/
inductive Mark where
  | char (c : Char)
  | unit (code : Nat)
  deriving DecidableEq, Repr

/-- The value of a hexadecimal digit of either case. -/
def hexDigit? (c : Char) : Option Nat :=
  if '0' ≤ c ∧ c ≤ '9' then some (c.toNat - '0'.toNat)
  else if 'a' ≤ c ∧ c ≤ 'f' then some (c.toNat - 'a'.toNat + 10)
  else if 'A' ≤ c ∧ c ≤ 'F' then some (c.toNat - 'A'.toNat + 10)
  else none

/-- The value of four hexadecimal digits. -/
def fourHexDigits? (a b c d : Char) : Option Nat := do
  return (((← hexDigit? a) * 16 + (← hexDigit? b)) * 16 + (← hexDigit? c)) * 16 + (← hexDigit? d)

/-- The character that a backslash and a letter stand for. -/
def shortEscape? : Char → Option Char
  | '"' => some '"'
  | '\\' => some '\\'
  | '/' => some '/'
  | 'b' => some '\x08'
  | 'f' => some '\x0c'
  | 'n' => some '\n'
  | 'r' => some '\r'
  | 't' => some '\t'
  | _ => none

/-- Put a mark in front of what was read. -/
def before (mark : Mark) (read : List Mark × List Char) : List Mark × List Char :=
  (mark :: read.1, read.2)

/-- Read a string after its opening quote; the result holds its marks and what
follows the closing quote.  Control characters have to be escaped. -/
def body : List Char → Option (List Mark × List Char)
  | [] => none
  | '"' :: rest => some ([], rest)
  | '\\' :: 'u' :: a :: b :: c :: d :: rest => do
      return before (.unit (← fourHexDigits? a b c d)) (← body rest)
  | '\\' :: letter :: rest => do
      return before (.char (← shortEscape? letter)) (← body rest)
  | c :: rest => if c.toNat < 0x20 then none else (body rest).map (before (.char c))

/-- The first half of a surrogate pair. -/
def isHighSurrogate (code : Nat) : Bool := 0xD800 ≤ code && code < 0xDC00

/-- The second half of a surrogate pair. -/
def isLowSurrogate (code : Nat) : Bool := 0xDC00 ≤ code && code < 0xE000

/-- The characters of some marks. -/
def assemble : List Mark → Option (List Char)
  | [] => some []
  | .char c :: rest => (assemble rest).map (c :: ·)
  | .unit high :: rest =>
      if isLowSurrogate high then none
      else if isHighSurrogate high then
        match rest with
        | .unit low :: rest =>
            if isLowSurrogate low then
              let c := Char.ofNat (0x10000 + (high - 0xD800) * 0x400 + (low - 0xDC00))
              (assemble rest).map (c :: ·)
            else none
        | _ => none
      else (assemble rest).map (Char.ofNat high :: ·)

end WhereClause.Json
