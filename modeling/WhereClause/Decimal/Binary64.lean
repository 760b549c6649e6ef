/-
WhereClause/Decimal/Binary64.lean

What a 64-bit binary floating point number stands for.  `Reading.ofFloat` takes
the bit pattern apart: a number is not a number, an infinity, or the exact
value `significand * 2 ^ exponent` with a sign.  Everything that is written
about a number in decimal starts from this exact value.

The gap below a power of two is half as wide as the gap above it.  `tight`
marks these numbers (the least normal number excepted, whose lower neighbour is
as far away as the upper one), since the decimals that are read back as the
number reach only half as far down.
-/

namespace WhereClause.Decimal

/-- The parts of a floating point number. -/
inductive Reading where
  | nan
  | infinite (negative : Bool)
  | finite (negative : Bool) (significand : Nat) (exponent : Int) (tight : Bool)
  deriving DecidableEq, Repr

namespace Reading

/-- The reading of a bit pattern: one sign bit, eleven exponent bits, fifty-two
fraction bits. -/
def ofBits (bits : UInt64) : Reading :=
  let negative := bits.toNat / Nat.pow 2 63 == 1
  let scale : Nat := bits.toNat / Nat.pow 2 52 % Nat.pow 2 11
  let fraction : Nat := bits.toNat % Nat.pow 2 52
  if scale = Nat.pow 2 11 - 1 then
    if fraction = 0 then infinite negative else nan
  else if scale = 0 then finite negative fraction (-1074) false
  else finite negative (fraction + Nat.pow 2 52) (scale - 1075) (fraction == 0 && 1 < scale)

/-- The reading of a number. -/
def ofFloat (x : Float) : Reading :=
  ofBits x.toBits

end Reading

end WhereClause.Decimal
