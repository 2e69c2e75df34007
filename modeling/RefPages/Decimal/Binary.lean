/-!
# Binary fractions of 53 digits

A decimal fraction is rounded to the nearest `significand · 2 ^ exponent` whose significand has at
most 53 binary digits, the even one of two that are equally near. All arithmetic is exact.
-/

namespace RefPages.Decimal

/-- The number `significand · 2 ^ exponent`. -/
structure Binary where
  significand : Nat
  exponent : Int
deriving DecidableEq, Repr

namespace Binary

def precision : Nat := 53

def minExponent : Int := -1074

def maxExponent : Int := 971

/-- A quotient rounded to the nearest integer, the even one of two that are equally near. -/
def roundDiv (num den : Nat) : Nat :=
  let q := num / den
  let twice := 2 * (num % den)
  if twice < den then q else if den < twice then q + 1 else if q % 2 = 0 then q else q + 1

/-- The fraction `num / den` divided by `2 ^ e`. -/
def scaled (num den : Nat) (e : Int) : Nat × Nat :=
  if 0 ≤ e then (num, den * Nat.pow 2 e.toNat) else (num * Nat.pow 2 (-e).toNat, den)

/-- The number nearest to `num / den`, for a positive denominator. There is none above the greatest
one. -/
def nearest? (num den : Nat) : Option Binary :=
  let guess : Int := (Nat.log2 num : Int) - (Nat.log2 den : Int) - (precision : Int)
  -- the quotient by `2 ^ guess` has 53 or 54 digits before the point
  let (n, d) := scaled num den guess
  let exponent := max minExponent (if n / d < Nat.pow 2 precision then guess else guess + 1)
  let (n, d) := scaled num den exponent
  let m := roundDiv n d
  let limit := Nat.pow 2 precision
  let b : Binary := if m = limit then ⟨limit / 2, exponent + 1⟩ else ⟨m, exponent⟩
  if maxExponent < b.exponent then none else some b

end Binary

end RefPages.Decimal
