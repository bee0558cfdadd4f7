import DenoPackager.Number.Binary64

/-!
# Shortest decimals

The shortest decimal that reads back as a given double. The doubles around `m * 2 ^ q` leave an
interval of reals that round to it; its ends belong to it exactly when `m` is even. For one
digit, two digits and so on, the two neighbours of the value on that decimal grid are tried in
exact arithmetic: the first grid with a neighbour inside the interval gives the digits, and of
two neighbours inside the nearer one, where the even one breaks a tie. Seventeen digits always
suffice.
-/

namespace DenoPackager.Number

/-- A positive decimal `digits * 10 ^ (exponent - n + 1)` for `digits` with `n` digits, so that
`exponent` is the power of ten of the first digit. -/
structure Shortest where
  digits : List Char
  exponent : Int
  deriving Repr, DecidableEq

/-- The greatest `k` with `10 ^ k ≤ num / den`, for fractions of at least `10 ^ (-400)`. -/
def floorLog10 (num den : Nat) : Int :=
  (digitCount (num * Nat.pow 10 400 / den) : Int) - 401

/-- The reals that round to `m * 2 ^ q`, as numerators over the common denominator `den`. -/
structure Rounding where
  low : Nat
  value : Nat
  high : Nat
  den : Nat
  closed : Bool
  deriving Repr

/-- The interval of the reals that round to `m * 2 ^ q`: half way to the next double on either
side. Below a power of two the doubles are twice as dense. -/
def Rounding.of (m : Nat) (q : Int) : Rounding :=
  let below := if 2 * m = mantissaBound ∧ minExponent < q then 1 else 2
  let unit := (scale 2 (q - 2) 1 1).1
  let den := (scale 2 (q - 2) 1 1).2
  { low := (4 * m - below) * unit
    value := 4 * m * unit
    high := (4 * m + 2) * unit
    den := den
    closed := m % 2 = 0 }

/-- Whether the fraction `num / den` lies in the interval. -/
def Rounding.contains (r : Rounding) (num den : Nat) : Bool :=
  if r.closed then r.low * den ≤ num * r.den && num * r.den ≤ r.high * den
  else r.low * den < num * r.den && num * r.den < r.high * den

/-- The neighbour of the value on the grid of multiples of `10 ^ e` that rounds to it: the nearer
one if both do. -/
def Rounding.onGrid? (r : Rounding) (e : Int) : Option Nat :=
  let unit := (scale 10 e 1 1).1
  let den := (scale 10 e 1 1).2
  let below := r.value * den / (r.den * unit)
  let lower := r.contains (below * unit) den
  let upper := r.contains ((below + 1) * unit) den
  if lower && upper then some (roundDiv (r.value * den) (r.den * unit))
  else if lower then some below
  else if upper then some (below + 1)
  else none

/-- The digits without the zeros at their end. -/
def dropFinalZeros (ds : List Char) : List Char :=
  (ds.reverse.dropWhile (· = '0')).reverse

/-- The first grid of at most `n + 1` more digits, from the coarsest on, that has a neighbour of
the value in its interval. -/
def Rounding.firstGrid (r : Rounding) (e : Int) : Nat → Nat × Int
  | 0 => ((r.onGrid? e).getD 0, e)
  | n + 1 =>
    match r.onGrid? e with
    | some d => (d, e)
    | none => r.firstGrid (e - 1) n

/-- **The shortest decimal** that reads back as `m * 2 ^ q`, for a positive mantissa. -/
def shortest (m : Nat) (q : Int) : Shortest :=
  let r := Rounding.of m q
  let (d, e) := r.firstGrid (floorLog10 r.value r.den) 16
  let ds := Nat.toDigits 10 d
  { digits := dropFinalZeros ds, exponent := e + (ds.length : Int) - 1 }

end DenoPackager.Number
