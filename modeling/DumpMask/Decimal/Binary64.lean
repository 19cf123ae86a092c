/-!
# Binary floating point numbers

A finite number of 53 bits precision: a significand below `2 ^ 53` times a power of two whose
exponent is at least -1074. Every operation is the exact rational result, rounded once to the nearest
such number, ties to the even significand. There is no infinity: a result that is too large is `none`.
-/

namespace DumpMask

/-- The number `± significand * 2 ^ exponent`. -/
structure Binary64 where
  negative : Bool
  significand : Nat
  exponent : Int
deriving DecidableEq, Repr

namespace Binary64

def minExponent : Int := -1074

def maxExponent : Int := 971

/-- The least significand of 53 bits. Smaller ones have the least exponent. -/
def leastNormal : Nat := 0x10000000000000

def zero : Binary64 := ⟨false, 0, minExponent⟩

def isZero (x : Binary64) : Bool :=
  x.significand == 0

def withSign (negative : Bool) (x : Binary64) : Binary64 :=
  { x with negative }

/-- The quotient rounded to the nearest integer, ties to even. -/
def roundQuotient (num den : Nat) : Nat :=
  let floor := num / den
  let twice := 2 * (num % den)
  if twice < den then floor
  else if den < twice then floor + 1
  else if floor % 2 = 0 then floor
  else floor + 1

/-- The quotient of `num` by `den * 2 ^ exponent`, as numerator and denominator. -/
def scaleDown (num den : Nat) (exponent : Int) : Nat × Nat :=
  (num <<< (-exponent).toNat, den <<< exponent.toNat)

/-- The exponent at which the significand of `num / den` has 53 bits, or the least one. -/
def exponentOf (num den : Nat) : Int :=
  let guess : Int := (Nat.log2 num : Int) - Nat.log2 den - 52
  let (n, d) := scaleDown num den guess
  let exponent := if n / d < leastNormal then guess - 1 else guess
  max exponent minExponent

/-- The number nearest to `num / den`. -/
def ofRatio (num den : Nat) : Option Binary64 :=
  if num = 0 then some zero
  else
    let exponent := exponentOf num den
    let (n, d) := scaleDown num den exponent
    let significand := roundQuotient n d
    let (significand, exponent) :=
      if significand = 2 * leastNormal then (leastNormal, exponent + 1) else (significand, exponent)
    if maxExponent < exponent then none else some ⟨false, significand, exponent⟩

/-- The absolute value as numerator and denominator. -/
def ratio (x : Binary64) : Nat × Nat :=
  (x.significand <<< x.exponent.toNat, 1 <<< (-x.exponent).toNat)

/-- The rounded product of two absolute values. -/
def mul (x y : Binary64) : Option Binary64 :=
  ofRatio (x.ratio.1 * y.ratio.1) (x.ratio.2 * y.ratio.2)

/-- The rounded quotient of two absolute values; the second is not zero. -/
def div (x y : Binary64) : Option Binary64 :=
  ofRatio (x.ratio.1 * y.ratio.2) (x.ratio.2 * y.ratio.1)

end Binary64

end DumpMask
