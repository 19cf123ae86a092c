import DumpMask.Bytes
import DumpMask.Decimal.Shortest

/-!
# Numbers in JSON documents

Integers of 64 bits are kept exactly and all other numbers become binary floating point numbers. A
significand is gathered digit by digit as long as it fits 64 bits, and is then scaled once by a power
of ten that is itself rounded, so the result need not be the nearest number to the text.
-/

namespace DumpMask.Json

inductive Number where
  | integer (value : Int)
  | float (value : Binary64)
deriving DecidableEq, Repr

/-- A number as it is written: digits before and after the point, and the exponent with its sign. -/
structure Numeral where
  negative : Bool
  whole : Bytes
  fraction : Option Bytes
  exponent : Option (Bool × Bytes)
deriving DecidableEq, Repr

namespace Numeral

def digitValue (digit : UInt8) : Nat :=
  digit.toNat - 0x30

def natValue (digits : Bytes) : Nat :=
  digits.foldl (fun n digit => 10 * n + digitValue digit) 0

/-! ### Scanning -/

/-- At least one digit. -/
def scanDigits (text : Bytes) : Option (Bytes × Bytes) :=
  let digits := text.takeWhile Ascii.isDigit
  if digits.isEmpty then none else some (digits, text.dropWhile Ascii.isDigit)

/-- Digits without a needless leading zero. -/
def scanWhole (text : Bytes) : Option (Bytes × Bytes) := do
  let (digits, rest) ← scanDigits text
  if digits.head? = some 0x30 ∧ 1 < digits.length then none else some (digits, rest)

def scanFraction : Bytes → Option (Option Bytes × Bytes)
  | [] => some (none, [])
  | b :: rest =>
    if b = Ascii.dot then (scanDigits rest).map fun (digits, rest) => (some digits, rest)
    else some (none, b :: rest)

/-- The sign of an exponent: whether it is negative, and what follows. -/
def scanSign : Bytes → Bool × Bytes
  | [] => (false, [])
  | b :: rest => if b = 0x2B then (false, rest) else if b = 0x2D then (true, rest) else (false, b :: rest)

def scanExponent : Bytes → Option (Option (Bool × Bytes) × Bytes)
  | [] => some (none, [])
  | b :: rest =>
    if b = 0x65 ∨ b = 0x45 then
      let (negative, rest) := scanSign rest
      (scanDigits rest).map fun (digits, rest) => (some (negative, digits), rest)
    else some (none, b :: rest)

/-- The numeral that a text begins with. -/
def scan (text : Bytes) : Option (Numeral × Bytes) := do
  let negative := text.head? == some 0x2D
  let (whole, rest) ← scanWhole (if negative then text.tail else text)
  let (fraction, rest) ← scanFraction rest
  let (exponent, rest) ← scanExponent rest
  return (⟨negative, whole, fraction, exponent⟩, rest)

/-! ### The number of a numeral -/

/-- Appends digits to a significand until one does not fit 64 bits; gives the digits left over. -/
def gather (significand : Nat) : Bytes → Nat × Bytes
  | [] => (significand, [])
  | digit :: rest =>
    let next := 10 * significand + digitValue digit
    if next < UInt64.size then gather next rest else (significand, digit :: rest)

/-- The largest power of ten that a number is scaled by in one step. -/
def maxPower : Nat := 308

def powerOfTen (n : Nat) : Option Binary64 :=
  Binary64.ofRatio (Nat.pow 10 n) 1

/-- Scales by a power of ten in one step, or by the largest one while the exponent is too low. -/
def scaleBy (x : Binary64) (exponent : Int) : Nat → Option Binary64
  | 0 => none
  | steps + 1 =>
    if exponent.natAbs ≤ maxPower then do
      let power ← powerOfTen exponent.natAbs
      if 0 ≤ exponent then x.mul power else x.div power
    else if x.isZero then some x
    else if 0 ≤ exponent then none
    else do
      let x ← x.div (← powerOfTen maxPower)
      scaleBy x (exponent + maxPower) steps

def scale (x : Binary64) (exponent : Int) : Option Binary64 :=
  scaleBy x exponent (exponent.natAbs / maxPower + 1)

/-- Written exponents above this are not read. -/
def maxExponent : Nat := 0x7fffffff

/-- The floating point number of a numeral; `none` if it is too large. -/
def float? (numeral : Numeral) : Option Binary64 := do
  let (significand, dropped) := gather 0 numeral.whole
  let fraction := numeral.fraction.getD []
  let (significand, unread) := gather significand fraction
  let shift : Int := dropped.length - (fraction.length - unread.length : Nat)
  let x ← Binary64.ofRatio significand 1
  let x ←
    match numeral.exponent with
    | none => scale x shift
    | some (negative, digits) =>
      let exponent := natValue digits
      if maxExponent < exponent then
        if x.isZero || negative then some Binary64.zero else none
      else scale x (if negative then shift - exponent else shift + exponent)
  return x.withSign numeral.negative

/-- The integer of a numeral, if it has neither point nor exponent and fits 64 bits. A negative zero
is no integer. -/
def integer? (numeral : Numeral) : Option Int :=
  if numeral.fraction.isNone && numeral.exponent.isNone then
    let n := natValue numeral.whole
    if numeral.negative then if 1 ≤ n ∧ 2 * n ≤ UInt64.size then some (-(n : Int)) else none
    else if n < UInt64.size then some n else none
  else none

def number? (numeral : Numeral) : Option Number :=
  match numeral.integer? with
  | some value => some (.integer value)
  | none => numeral.float?.map .float

end Numeral

/-! ### Writing -/

/-- Floating point numbers are written positionally from the exponent -5 of the leading digit on. -/
def minPositional : Int := -5

/-- And in scientific form from this exponent on. -/
def minScientific : Int := 16

def digitOctets (n : Nat) : Bytes :=
  Bytes.ofNat n

/-- The digits of a decimal without zeros at the end, and the exponent of the first of them. -/
def significantDigits (decimal : Decimal) : Bytes × Int :=
  let digits := digitOctets decimal.digits
  let kept := (digits.reverse.dropWhile (· == 0x30)).reverse
  (kept, decimal.exponent + digits.length - 1)

/-- A point and the digits after it, at least one. -/
def pointAndFraction (fraction : Bytes) : Bytes :=
  Ascii.dot :: (if fraction.isEmpty then [0x30] else fraction)

/-- The digits with the point behind the digit of exponent zero. -/
def positional (digits : Bytes) (exponent : Int) : Bytes :=
  if exponent < 0 then
    0x30 :: Ascii.dot :: (List.replicate (-exponent - 1).toNat 0x30 ++ digits)
  else
    let count := exponent.toNat + 1
    let padded := digits ++ List.replicate (count - digits.length) 0x30
    padded.take count ++ pointAndFraction (padded.drop count)

/-- One digit before the point, and the exponent with its sign. -/
def scientific (digits : Bytes) (exponent : Int) : Bytes :=
  let fraction := digits.drop 1
  digits.take 1 ++ (if fraction.isEmpty then [] else Ascii.dot :: fraction) ++
    (0x65 : UInt8) :: (if exponent < 0 then 0x2D else 0x2B) :: digitOctets exponent.natAbs

def Number.printFloat (x : Binary64) : Bytes :=
  let (digits, exponent) := significantDigits (Decimal.shortest x)
  let text :=
    if x.isZero then ascii "0.0"
    else if minPositional ≤ exponent ∧ exponent < minScientific then positional digits exponent
    else scientific digits exponent
  if x.negative then 0x2D :: text else text

def Number.print : Number → Bytes
  | .integer value => if value < 0 then 0x2D :: digitOctets value.natAbs else digitOctets value.natAbs
  | .float x => printFloat x

end DumpMask.Json
