/-!
# Double precision numbers

A double precision number is kept as what its bits stand for: a sign, a mantissa below `2 ^ 53`
and a power of two, or an infinity, or no number at all. Reading a decimal rounds in exact
integer arithmetic, to the nearest number and to the even mantissa of two equally near ones.
-/

namespace DenoPackager.Number

/-- **A double precision number.** A finite one is `mantissa * 2 ^ exponent`. -/
inductive Binary64 where
  | finite (negative : Bool) (mantissa : Nat) (exponent : Int)
  | infinite (negative : Bool)
  | notANumber
  deriving Repr, DecidableEq

/-- One more than the greatest mantissa. -/
def mantissaBound : Nat := 9007199254740992

/-- The least exponent of a finite number. -/
def minExponent : Int := -1074

/-- The greatest exponent of a finite number. -/
def maxExponent : Int := 971

/-- The quotient of two natural numbers, rounded to the nearest one and to the even one of two
equally near. -/
def roundDiv (num den : Nat) : Nat :=
  let quotient := num / den
  let twice := 2 * (num % den)
  if den < twice then quotient + 1
  else if twice < den then quotient
  else if quotient % 2 = 0 then quotient else quotient + 1

/-- The product of a numerator with a power of a base, where a negative power goes to the
denominator: the fraction `num / den * base ^ e`. -/
def scale (base : Nat) (e : Int) (num den : Nat) : Nat × Nat :=
  match e with
  | .ofNat n => (num * base.pow n, den)
  | .negSucc n => (num, den * base.pow (n + 1))

/-- The greatest `e` with `2 ^ e ≤ num / den`, for positive numbers. -/
def floorLog2 (num den : Nat) : Int :=
  let guess : Int := (num.log2 : Int) - den.log2
  let (n, d) := scale 2 (-guess) num den
  if d ≤ n then guess else guess - 1

/-- How many decimal digits a number has. -/
def digitCount (n : Nat) : Nat :=
  (Nat.toDigits 10 n).length

/-- The double nearest to a positive fraction. -/
def Binary64.ofFraction (negative : Bool) (num den : Nat) : Binary64 :=
  let e := max minExponent (floorLog2 num den - 52)
  let (n, d) := scale 2 (-e) num den
  let m := roundDiv n d
  let (m, e) := if m = mantissaBound then (mantissaBound / 2, e + 1) else (m, e)
  if maxExponent < e then .infinite negative else .finite negative m e

/-- **Reading a decimal.** The double nearest to `digits * 10 ^ exponent`. Beyond the range of
doubles the answer is known before any power is computed. -/
def Binary64.ofDecimal (negative : Bool) (digits : Nat) (exponent : Int) : Binary64 :=
  let magnitude := digitCount digits + exponent
  if digits = 0 ∨ magnitude < -330 then .finite negative 0 minExponent
  else if 310 < magnitude then .infinite negative
  else
    let (n, d) := scale 10 exponent digits 1
    .ofFraction negative n d

/-- Whether the number is a zero of either sign. -/
def Binary64.isZero : Binary64 → Bool
  | .finite _ m _ => m = 0
  | _ => false

/-- A natural number with a sign. -/
def signed (negative : Bool) (n : Nat) : Int :=
  if negative then -n else n

/-- The integer that the number is, if it is a whole one. Both zeros are the integer zero. -/
def Binary64.integer? : Binary64 → Option Int
  | .finite negative m e =>
    let (n, d) := scale 2 e m 1
    if n % d = 0 then some (signed negative (n / d)) else none
  | _ => none

end DenoPackager.Number
