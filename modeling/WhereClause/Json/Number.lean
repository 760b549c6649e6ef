/-
WhereClause/Json/Number.lean

JSON numbers: their grammar, and the values they stand for.

A number written without point and exponent is an integer and stays one as long
as it fits into 64 bits with a sign; only a negative zero does not, having a sign
to keep.  Every other number becomes a floating point number in the following
way, which is not always the nearest one.  The digits from the left make up the
significand until the next digit would no longer fit into 64 bits
(`absorb`); the rest of the digits only counts for the exponent of ten.  The
significand is rounded once to a floating point number and a second time when it
is multiplied or divided by the power of ten.  A result beyond the range of
floating point numbers is no number at all.
-/
import WhereClause.Json.Value

namespace WhereClause.Json.Number

/-! ### The grammar -/

/-- The leading digits, and what follows. -/
def digits (cs : List Char) : List Char × List Char :=
  (cs.takeWhile Char.isDigit, cs.dropWhile Char.isDigit)

/-- Digits without a needless leading zero. -/
def wellFormed : List Char → Bool
  | [] => false
  | ['0'] => true
  | '0' :: _ => false
  | _ => true

/-- Read the fraction, if there is a point. -/
def readFraction : List Char → Option (List Char × List Char)
  | '.' :: cs =>
      match digits cs with
      | ([], _) => none
      | read => some read
  | cs => some ([], cs)

/-- Read the digits of an exponent with the given sign. -/
def readExponentDigits (negative : Bool) (cs : List Char) : Option (Option Int × List Char) :=
  match digits cs with
  | ([], _) => none
  | (ds, rest) =>
      let n : Int := Nat.ofDigitChars 10 ds 0
      some (some (if negative then -n else n), rest)

/-- Read the exponent, if there is one. -/
def readExponent : List Char → Option (Option Int × List Char)
  | c :: cs =>
      if c = 'e' ∨ c = 'E' then
        match cs with
        | '-' :: cs => readExponentDigits true cs
        | '+' :: cs => readExponentDigits false cs
        | cs => readExponentDigits false cs
      else some (none, c :: cs)
  | [] => some (none, [])

/-- Read a number after its sign. -/
def readUnsigned (negative : Bool) (cs : List Char) : Option (Number × List Char) := do
  let (whole, cs) := digits cs
  if wellFormed whole then
    let (fraction, cs) ← readFraction cs
    let (exponent, cs) ← readExponent cs
    return (⟨negative, whole, fraction, exponent⟩, cs)
  else none

/-- Read a number. -/
def read : List Char → Option (Number × List Char)
  | '-' :: cs => readUnsigned true cs
  | cs => readUnsigned false cs

/-! ### The value -/

/-- Take digits into a significand while it fits into 64 bits; the second result
is the number of digits left over. -/
def absorb (significand : Nat) : List Char → Nat × Nat
  | [] => (significand, 0)
  | d :: rest =>
      let next := significand * 10 + (d.toNat - '0'.toNat)
      if next < Nat.pow 2 64 then absorb next rest else (significand, rest.length + 1)

/-- A floating point number divided by `10 ^ e`, in steps of at most 308. -/
def divideByPower (x : Float) (e : Nat) : Float :=
  if e ≤ 308 then x / Float.ofScientific 1 false e
  else if x == 0 then x
  else divideByPower (x / Float.ofScientific 1 false 308) (e - 308)
termination_by e

/-- A floating point number times `10 ^ e`, if it stays within the range. -/
def scale? (x : Float) (e : Int) : Option Float :=
  if e < 0 then some (divideByPower x e.natAbs)
  else if e ≤ 308 then
    let y := x * Float.ofScientific 1 false e.natAbs
    if y.isInf then none else some y
  else if x == 0 then some x
  else none

/-- The floating point number that a number stands for. -/
def float? (n : Number) : Option Float := do
  let (leading, dropped) := absorb 0 n.whole
  let (significand, ignored) := absorb leading n.fraction
  let places : Int := dropped - (n.fraction.length - ignored : Nat) + n.exponent.getD 0
  let x ← scale? significand.toUInt64.toFloat places
  return if n.negative then -x else x

/-- The integer that a number stands for, if it is written as one and fits into
64 bits with a sign. -/
def int? (n : Number) : Option Int64 :=
  let magnitude := Nat.ofDigitChars 10 n.whole 0
  if n.fraction ≠ [] ∨ n.exponent ≠ none then none
  else if n.negative then
    if 0 < magnitude ∧ magnitude ≤ Nat.pow 2 63 then some (Int64.ofInt (-magnitude)) else none
  else if magnitude < Nat.pow 2 63 then some (Int64.ofInt magnitude)
  else none

end WhereClause.Json.Number
