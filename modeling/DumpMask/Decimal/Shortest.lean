import DumpMask.Decimal.Binary64

/-!
# Shortest decimals

The decimal with the fewest digits that rounds to a given binary number, and of those with equally
many digits the one nearest to it. Such a decimal is one of the two neighbours of the number on the
grid of its digit count, so the search asks these two for one digit, two digits and so on; seventeen
are always enough.
-/

namespace DumpMask

/-- The number `digits * 10 ^ exponent`. -/
structure Decimal where
  digits : Nat
  exponent : Int
deriving DecidableEq, Repr

namespace Decimal

def digitCount (n : Nat) : Nat :=
  (Nat.toDigits 10 n).length

/-- The exponent of the leading digit of `num / den`, which is not zero. -/
def leadingExponent (num den : Nat) : Int :=
  if den ≤ num then (digitCount (num / den) : Int) - 1 else -(digitCount ((den - 1) / num) : Int)

/-- The numbers that round to `x` form an interval. `quarters` measures it in quarters of the unit
of `x`'s significand: the lower end, `x` itself, the upper end. -/
def quarters (x : Binary64) : Nat × Nat × Nat :=
  let m := 4 * x.significand
  let below := if x.significand = Binary64.leastNormal ∧ Binary64.minExponent < x.exponent then 1 else 2
  (m - below, m, m + 2)

/-- The decimal on the grid of `count` digits that rounds to `x`, if there is one. Of two the nearer
is taken, and of two equally near the even one. -/
def onGrid? (x : Binary64) (leading : Int) (count : Nat) : Option Decimal :=
  let exponent := leading - count + 1
  let (low, middle, high) := quarters x
  -- both sides of a comparison with `x` are brought to the same unit
  let binary := Nat.pow 10 (-exponent).toNat <<< (x.exponent - 2).toNat
  let decimal := Nat.pow 10 exponent.toNat <<< (2 - x.exponent).toNat
  let inside (candidate : Nat) : Bool :=
    if x.significand % 2 = 0 then
      low * binary ≤ candidate * decimal && candidate * decimal ≤ high * binary
    else low * binary < candidate * decimal && candidate * decimal < high * binary
  let floor := middle * binary / decimal
  match inside floor, inside (floor + 1) with
  | false, false => none
  | true, false => some ⟨floor, exponent⟩
  | false, true => some ⟨floor + 1, exponent⟩
  | true, true =>
    let shortfall := middle * binary - floor * decimal
    let excess := (floor + 1) * decimal - middle * binary
    if shortfall < excess then some ⟨floor, exponent⟩
    else if excess < shortfall then some ⟨floor + 1, exponent⟩
    else if floor % 2 = 0 then some ⟨floor, exponent⟩
    else some ⟨floor + 1, exponent⟩

def search (x : Binary64) (leading : Int) : Nat → Nat → Decimal
  | 0, _ => ⟨0, 0⟩
  | tries + 1, count =>
    match onGrid? x leading count with
    | some decimal => decimal
    | none => search x leading tries (count + 1)

/-- The shortest decimal that rounds to the absolute value of `x`. -/
def shortest (x : Binary64) : Decimal :=
  if x.isZero then ⟨0, 0⟩
  else search x (leadingExponent x.ratio.1 x.ratio.2) 17 1

end Decimal

end DumpMask
