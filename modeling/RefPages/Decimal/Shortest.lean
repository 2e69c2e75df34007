import RefPages.Decimal.Binary

/-!
# Shortest decimals

A binary fraction is written with the fewest decimal digits that are nearer to it than to any other
binary fraction of the same precision, and of those with the digits nearest to it. The digits are
written with a point and never with an exponent.

    0.1  ──▶  0.1        1e3  ──▶  1000.0        5e-7  ──▶  0.0000005
-/

namespace RefPages.Decimal

structure Fraction where
  num : Nat
  den : Nat
deriving DecidableEq, Repr

namespace Fraction

def le (a b : Fraction) : Bool := a.num * b.den ≤ b.num * a.den

def lt (a b : Fraction) : Bool := a.num * b.den < b.num * a.den

/-- The fraction `n · 2 ^ e`. -/
def ofBinary (n : Nat) (e : Int) : Fraction :=
  if 0 ≤ e then ⟨n * Nat.pow 2 e.toNat, 1⟩ else ⟨n, Nat.pow 2 (-e).toNat⟩

/-- The fraction `n · 10 ^ e`. -/
def ofDecimal (n : Nat) (e : Int) : Fraction :=
  if 0 ≤ e then ⟨n * Nat.pow 10 e.toNat, 1⟩ else ⟨n, Nat.pow 10 (-e).toNat⟩

def distance (a b : Fraction) : Fraction :=
  let x := a.num * b.den
  let y := b.num * a.den
  ⟨(x - y) + (y - x), a.den * b.den⟩

end Fraction

/-- Do decimals between the two ends, or at them for an even significand, read back as the
number? -/
def readsBack (b : Binary) (x : Fraction) : Bool :=
  let isLeast := b.significand = Nat.pow 2 (Binary.precision - 1) ∧ Binary.minExponent < b.exponent
  let low := if isLeast then Fraction.ofBinary (4 * b.significand - 1) (b.exponent - 2)
    else Fraction.ofBinary (2 * b.significand - 1) (b.exponent - 1)
  let high := Fraction.ofBinary (2 * b.significand + 1) (b.exponent - 1)
  if b.significand % 2 = 0 then low.le x && x.le high else low.lt x && x.lt high

/-- The least power of ten above a fraction, found by going up or down from a guess. -/
def magnitude (x : Fraction) : Nat → Int → Int
  | 0, p => p
  | steps + 1, p =>
    if !x.lt (Fraction.ofDecimal 1 p) then magnitude x steps (p + 1)
    else if x.lt (Fraction.ofDecimal 1 (p - 1)) then magnitude x steps (p - 1)
    else p

/-- The digits of the shortest decimal that reads back, with the power of ten of its last digit.
The count goes up to the number of digits that always suffice. -/
def shortestFrom (b : Binary) (x : Fraction) (p : Int) : Nat → Nat → Nat × Int
  | 0, n =>
    let e := p - n
    let unit := Fraction.ofDecimal 1 e
    (x.num * unit.den / (x.den * unit.num), e)
  | more + 1, n =>
    let e := p - n
    let unit := Fraction.ofDecimal 1 e
    let q := x.num * unit.den / (x.den * unit.num)
    let below := Fraction.ofDecimal q e
    let above := Fraction.ofDecimal (q + 1) e
    match readsBack b below && q != 0, readsBack b above with
    | true, true =>
      if (above.distance x).lt (below.distance x) then (q + 1, e) else (q, e)
    | true, false => (q, e)
    | false, true => (q + 1, e)
    | false, false => shortestFrom b x p more (n + 1)

/-- The shortest decimal of a positive number: its digits as a number, and the power of ten of the
last one. -/
def shortest (b : Binary) : Nat × Int :=
  let x := Fraction.ofBinary b.significand b.exponent
  shortestFrom b x (magnitude x 700 0) 17 1

/-- Digits with a point, which has at least one digit on each side. -/
def positional (digits : Nat) (e : Int) : String :=
  let text := Nat.toDigits 10 digits
  if 0 ≤ e then String.ofList (text ++ List.replicate e.toNat '0') ++ ".0"
  else
    let places := (-e).toNat
    let padded := List.replicate (places + 1 - text.length) '0' ++ text
    let whole := padded.take (padded.length - places)
    -- zeros at the end say nothing
    let fraction := (padded.drop (padded.length - places)).reverse.dropWhile (· == '0')
    let fraction := if fraction.isEmpty then ['0'] else fraction.reverse
    String.ofList whole ++ "." ++ String.ofList fraction

/-- The text of a number that is not negative. -/
def render (b : Binary) : String :=
  if b.significand = 0 then "0.0"
  else
    let (digits, e) := shortest b
    positional digits e

end RefPages.Decimal
