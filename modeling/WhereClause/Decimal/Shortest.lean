/-
WhereClause/Decimal/Shortest.lean

The shortest decimal that is read back as a given binary number.  A decimal is
read back as `significand * 2 ^ exponent` if it lies within half a gap of it;
the two ends of that interval count exactly if the significand is even, because
a tie is read as the even neighbour.

`shortest` looks at ever finer decimal grids, those of the multiples of `10 ^ p`
for falling `p`.  If any point of a grid lies in the interval, one of the two
grid points around the number does, so only these two are tried
(`Interval.pick`).  The first grid with a hit has the fewest digits; of two hits
the nearer one is taken, and `Tie` decides when both are equally near.  All
arithmetic is exact.
-/

namespace WhereClause.Decimal

/-- The decimal `digits * 10 ^ exponent`. -/
structure Numeral where
  digits : Nat
  exponent : Int
  deriving DecidableEq, Repr

/-- What becomes of a number halfway between two decimals. -/
inductive Tie where
  | up
  | toEven
  deriving DecidableEq, Repr

/-- The rationals that are read back as `value`, all over one denominator. -/
structure Interval where
  low : Nat
  value : Nat
  high : Nat
  denominator : Nat
  /-- The ends belong to the interval. -/
  closed : Bool
  deriving Repr

namespace Interval

/-- The interval around `significand * 2 ^ exponent`, in quarters of a gap. -/
def around (significand : Nat) (exponent : Int) (tight : Bool) : Interval where
  low := (4 * significand - if tight then 1 else 2) * Nat.pow 2 (exponent - 2).toNat
  value := 4 * significand * Nat.pow 2 (exponent - 2).toNat
  high := (4 * significand + 2) * Nat.pow 2 (exponent - 2).toNat
  denominator := Nat.pow 2 (2 - exponent).toNat
  closed := significand % 2 == 0

/-- Whether `n / d` lies in the interval. -/
def holds (t : Interval) (n d : Nat) : Bool :=
  if t.closed then t.low * d ≤ n * t.denominator && n * t.denominator ≤ t.high * d
  else t.low * d < n * t.denominator && n * t.denominator < t.high * d

/-- The multiple of `10 ^ p` in the interval that is nearest to the value, as
the multiple's count. -/
def pick (t : Interval) (tie : Tie) (p : Int) : Option Nat :=
  let step := t.denominator * Nat.pow 10 p.toNat
  let value := t.value * Nat.pow 10 (-p).toNat
  let below := value / step
  let hit (n : Nat) := t.holds (n * Nat.pow 10 p.toNat) (Nat.pow 10 (-p).toNat)
  match hit below, hit (below + 1) with
  | false, false => none
  | true, false => some below
  | false, true => some (below + 1)
  | true, true =>
      match compare (2 * (value % step)) step, tie with
      | .lt, _ => some below
      | .gt, _ => some (below + 1)
      | .eq, .up => some (below + 1)
      | .eq, .toEven => some (below + below % 2)

/-- The exponent of the first digit of the value: the `e` for which the value
is at least `10 ^ e` and less than `10 ^ (e + 1)`. -/
def magnitude (t : Interval) : Int :=
  let guess : Int :=
    ((Nat.toDigits 10 t.value).length : Int) - (Nat.toDigits 10 t.denominator).length
  if t.denominator * Nat.pow 10 guess.toNat ≤ t.value * Nat.pow 10 (-guess).toNat then guess
  else guess - 1

/-- The first hit among the grids of `10 ^ p`, `10 ^ (p - 1)` and so on, at
most `grids` of them. -/
def firstHit (t : Interval) (tie : Tie) : (grids : Nat) → (p : Int) → Option Numeral
  | 0, _ => none
  | grids + 1, p =>
      match t.pick tie p with
      | some n => some ⟨n, p⟩
      | none => firstHit t tie grids (p - 1)

end Interval

/-- The shortest decimal in the interval around a positive binary number.
Seventeen digits always suffice, so the search ends within eighteen grids, the
first of which is coarser than the number itself. -/
def shortest (tie : Tie) (significand : Nat) (exponent : Int) (tight : Bool) : Numeral :=
  let interval := Interval.around significand exponent tight
  (interval.firstHit tie 18 (interval.magnitude + 1)).getD ⟨0, 0⟩

end WhereClause.Decimal
