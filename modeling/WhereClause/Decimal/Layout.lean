/-
WhereClause/Decimal/Layout.lean

How a decimal is laid out.  A `Layout` holds the decisions of one written form:
which way ties go, whether a whole number keeps a point, and for which exponents
the number is written out in full instead of with an exponent mark.
`Layout.finite` writes a finite number.  Infinities and what is not a number
have no decimal; each written form says itself what becomes of them.
-/
import WhereClause.Decimal.Binary64
import WhereClause.Decimal.Shortest

namespace WhereClause.Decimal

/-- The decisions of a written form of finite numbers. -/
structure Layout where
  tie : Tie
  /-- A whole number written out in full ends in a point and a zero. -/
  pointZero : Bool
  /-- The least and the greatest exponent of the first digit for which the
  number is written out in full; `none` if it always is. -/
  full : Option (Int × Int)
  deriving Repr

namespace Layout

/-- Digits written out in full, the last one standing for `10 ^ exponent`. -/
def inFull (layout : Layout) (digits : List Char) (exponent : Int) : List Char :=
  let whole : Int := digits.length + exponent
  if 0 ≤ exponent then
    digits ++ List.replicate exponent.toNat '0' ++ if layout.pointZero then ['.', '0'] else []
  else if 0 < whole then digits.take whole.toNat ++ '.' :: digits.drop whole.toNat
  else '0' :: '.' :: List.replicate (-whole).toNat '0' ++ digits

/-- Digits with a point after the first one and the exponent of the first one. -/
def withExponent (digits : List Char) (first : Int) : List Char :=
  let mantissa :=
    match digits with
    | d :: d' :: rest => d :: '.' :: d' :: rest
    | _ => digits
  mantissa ++ 'e' :: (if first < 0 then '-' else '+') :: Nat.toDigits 10 first.natAbs

/-- A positive decimal. -/
def numeral (layout : Layout) (n : Numeral) : List Char :=
  let digits := Nat.toDigits 10 n.digits
  let first : Int := digits.length + n.exponent - 1
  match layout.full with
  | none => layout.inFull digits n.exponent
  | some (least, greatest) =>
      if least ≤ first ∧ first ≤ greatest then layout.inFull digits n.exponent
      else withExponent digits first

/-- A finite number with its sign; a zero keeps its sign too. -/
def finite (layout : Layout) (negative : Bool) (significand : Nat) (exponent : Int)
    (tight : Bool) : String :=
  let value : Numeral :=
    if significand = 0 then ⟨0, 0⟩ else shortest layout.tie significand exponent tight
  String.ofList ((if negative then ['-'] else []) ++ layout.numeral value)

end Layout

end WhereClause.Decimal
