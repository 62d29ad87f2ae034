import JsonWriter.Decimal

/-! Floating-point numbers of 64 bits, decoded into a sign and a whole number of units in the last
place: the one nearest to an exact number, the JSON text of one at a precision, and the fewest digits
that read back as the same one. -/
namespace JsonWriter

/-- A number of 64 bits: its sign, and the other 63 bits as a natural number. Magnitudes are ordered
as these naturals are, and the successor of a magnitude is the next one, also across a change of
exponent. -/
structure Binary64 where
  negative : Bool
  magnitude : Nat
  magnitude_lt : magnitude < 0x8000000000000000
deriving DecidableEq

namespace Binary64

def ofBits (bits : UInt64) : Binary64 where
  negative := 0x8000000000000000 ≤ bits.toNat
  magnitude := bits.toNat % 0x8000000000000000
  magnitude_lt := Nat.mod_lt _ (by decide)

/-- The magnitude of the infinities; the greater ones are no numbers. -/
def infinity : Nat := 0x7ff0000000000000

/-- The magnitude of the least power of two above the subnormal numbers. -/
def leastNormal : Nat := 0x10000000000000

def isFinite (x : Binary64) : Bool := x.magnitude < infinity

def isNaN (x : Binary64) : Bool := infinity < x.magnitude

def isZero (x : Binary64) : Bool := x.magnitude == 0

/-- How many units in the last place make up the magnitude. The leading bit of a normal number is
not stored. -/
def significand (x : Binary64) : Nat :=
  if x.magnitude < leastNormal then x.magnitude else leastNormal + x.magnitude % leastNormal

def unitExponent (x : Binary64) : Int :=
  if x.magnitude < leastNormal then -1074 else (x.magnitude / leastNormal : Nat) - 1075

/-- The magnitude of a finite number is `numerator / denominator`. -/
def numerator (x : Binary64) : Nat := x.significand * Nat.pow 2 x.unitExponent.toNat

def denominator (x : Binary64) : Nat := Nat.pow 2 (-x.unitExponent).toNat

/-- A place of ten of which the magnitude is a multiple. -/
def finestPlace (x : Binary64) : Int := if x.unitExponent < 0 then x.unitExponent else 0

theorem denominator_pos (x : Binary64) : 0 < x.denominator := Nat.pow_pos (by decide)

theorem significand_pos {x : Binary64} (h : x.isZero = false) : 0 < x.significand := by
  simp only [isZero, beq_eq_false_iff_ne] at h
  unfold significand leastNormal
  split <;> omega

theorem significand_lt (x : Binary64) : x.significand < 2 * leastNormal := by
  unfold significand leastNormal
  split <;> omega

/-- The magnitude nearest to a quotient. The unit in the last place leaves 53 bits, but is never
finer than the least subnormal number; a round up to the next power of two is the next magnitude. -/
def nearestMagnitude (num den : Nat) : Nat :=
  if num = 0 then 0
  else
    let unit := Rounding.leadingExponent 2 Nat.log2 num den - 52
    let unit := if unit < -1074 then -1074 else unit
    (unit + 1074).toNat * leastNormal + Rounding.unitsNearest 2 unit num den

def ofMagnitude (negative : Bool) (magnitude : Nat) : Binary64 :=
  if h : magnitude < infinity then ⟨negative, magnitude, Nat.lt_trans h (by decide)⟩
  else ⟨negative, infinity, by decide⟩

def ofRatio (negative : Bool) (num den : Nat) : Binary64 :=
  ofMagnitude negative (nearestMagnitude num den)

/-- The nearest finite number to an integer; none where the integer is too large. -/
def ofInt? (n : Int) : Option Binary64 :=
  let x := ofRatio (n < 0) n.natAbs 1
  if x.isFinite then some x else none

/-- The number nearest to a decimal. Decimals far outside the range need no arithmetic. -/
def ofDecimal (negative : Bool) (d : Decimal) : Binary64 :=
  if d.coefficient = 0 || d.leading < -400 then ofMagnitude negative 0
  else if 400 < d.leading then ofMagnitude negative infinity
  else
    ofRatio negative (d.coefficient * Nat.pow 10 d.exponent.toNat)
      (Nat.pow 10 (-d.exponent).toNat)

/-- Precisions count significant digits; there is at least one. -/
def significantDigits (precision : Nat) : Nat := if precision = 0 then 1 else precision

/-- Numbers are positional up to as many digits as they may have; whole ones have no point. -/
def jsonLayout (precision : Nat) : Decimal.Layout := ⟨significantDigits precision, false⟩

def magnitudeText (precision : Nat) (x : Binary64) : List Char :=
  if x.isZero then ['0']
  else
    (jsonLayout precision).write
      (Decimal.ofRatio (significantDigits precision) x.finestPlace x.numerator x.denominator)

/-- JSON has no numbers for the infinities and for what is no number; they are null. -/
def toJson (precision : Nat) (x : Binary64) : String :=
  if x.isFinite then
    let text := x.magnitudeText precision
    String.ofList (if x.negative then '-' :: text else text)
  else "null"

/-- The first digits of a magnitude, rounded down and up to a number of significant digits. -/
def neighbours (x : Binary64) (digits : Nat) : Decimal × Decimal :=
  let last := Rounding.leadingExponent 10 Decimal.log10 x.numerator x.denominator
    - (digits - 1 : Nat)
  let below := Rounding.unitsBelow 10 last x.numerator x.denominator
  (⟨below, last⟩, ⟨below + 1, last⟩)

def readsBack (x : Binary64) (d : Decimal) : Bool := (ofDecimal false d).magnitude == x.magnitude

/-- The decimal of the given length that reads back and is nearest; on a tie the even one. -/
def ofLength? (x : Binary64) (digits : Nat) : Option Decimal :=
  let (below, above) := x.neighbours digits
  let near := Decimal.ofRatio digits below.exponent x.numerator x.denominator
  if x.readsBack near then some near
  else if x.readsBack below then some below
  else if x.readsBack above then some above
  else none

/-- Seventeen digits always read back, so the last choice is never left out. -/
def shortest (x : Binary64) : Decimal :=
  ((List.range' 1 17).findSome? x.ofLength?).getD
    (Decimal.ofRatio 17 x.finestPlace x.numerator x.denominator)

/-- Displayed numbers are positional below 10 to the 16, and whole ones are marked. -/
def displayLayout : Decimal.Layout := ⟨16, true⟩

def display (x : Binary64) : String :=
  if x.isNaN then "nan"
  else
    let text :=
      if !x.isFinite then ['i', 'n', 'f']
      else if x.isZero then ['0', '.', '0']
      else displayLayout.write x.shortest
    String.ofList (if x.negative then '-' :: text else text)

end Binary64
end JsonWriter
