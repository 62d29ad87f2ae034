import JsonWriter.Numeral

/-! Decimal numbers: how a quotient is rounded to some significant digits, and how a decimal is laid
out as text, with a point or with an exponent. Of two integers equally near the even one is taken. -/
namespace JsonWriter

namespace Rounding

/-- The integer nearest to a quotient. -/
def divNearest (num den : Nat) : Nat :=
  let quotient := num / den
  let twice := 2 * (num % den)
  if twice < den then quotient
  else if den < twice then quotient + 1
  else quotient + quotient % 2

/-- How many units of `base ^ e` make up the multiple of that unit nearest to a quotient. -/
def unitsNearest (base : Nat) (e : Int) (num den : Nat) : Nat :=
  divNearest (num * Nat.pow base (-e).toNat) (den * Nat.pow base e.toNat)

def unitsBelow (base : Nat) (e : Int) (num den : Nat) : Nat :=
  num * Nat.pow base (-e).toNat / (den * Nat.pow base e.toNat)

/-- The greatest exponent whose power of the base is at most the quotient of two positive numbers.
The logarithms of the two, rounded down, leave a choice of two exponents. -/
def leadingExponent (base : Nat) (log : Nat → Nat) (num den : Nat) : Int :=
  let e : Int := log num - log den
  if den * Nat.pow base e.toNat ≤ num * Nat.pow base (-e).toNat then e else e - 1

theorem two_mul_divNearest_mul_le (num den : Nat) :
    2 * (divNearest num den * den) ≤ 2 * num + den := by
  have h := Nat.div_add_mod num den
  have hc := Nat.mul_comm (num / den) den
  simp only [divNearest]
  split
  · omega
  · split
    · rw [Nat.add_mul]; omega
    · rcases Nat.mod_two_eq_zero_or_one (num / den) with h2 | h2 <;> rw [h2, Nat.add_mul] <;> omega

theorem two_mul_le_divNearest_mul (num : Nat) {den : Nat} (hd : 0 < den) :
    2 * num ≤ 2 * (divNearest num den * den) + den := by
  have h := Nat.div_add_mod num den
  have hc := Nat.mul_comm (num / den) den
  have hm := Nat.mod_lt num hd
  simp only [divNearest]
  split
  · omega
  · split
    · rw [Nat.add_mul]; omega
    · rcases Nat.mod_two_eq_zero_or_one (num / den) with h2 | h2 <;> rw [h2, Nat.add_mul] <;> omega

/-- Where rounding takes away or adds exactly half, it leads to an even integer. -/
theorem divNearest_of_tie {num den : Nat} (hd : 0 < den)
    (h : 2 * num = 2 * (divNearest num den * den) + den ∨
      2 * (divNearest num den * den) = 2 * num + den) : divNearest num den % 2 = 0 := by
  have hdiv := Nat.div_add_mod num den
  have hc := Nat.mul_comm (num / den) den
  have hm := Nat.mod_lt num hd
  rcases Nat.lt_trichotomy (2 * (num % den)) den with hlow | hhalf | hhigh
  · simp only [divNearest, hlow, if_true] at h
    omega
  · simp only [divNearest, hhalf, Nat.lt_irrefl, if_false]
    omega
  · simp only [divNearest, Nat.lt_asymm hhigh, hhigh, if_false, if_true, Nat.add_mul] at h
    omega

end Rounding

/-- The number `coefficient * 10 ^ exponent`. -/
structure Decimal where
  coefficient : Nat
  exponent : Int
deriving DecidableEq, Repr

namespace Decimal

def log10 (n : Nat) : Nat := (Nat.toDigits 10 n).length - 1

/-- The exponent of ten of a decimal's first digit. -/
def leading (d : Decimal) : Int := log10 d.coefficient + d.exponent

/-- The digits of the coefficient up to the last that is not zero. -/
def significantDigits (d : Decimal) : List Char :=
  ((Nat.toDigits 10 d.coefficient).reverse.dropWhile (· == '0')).reverse

/-- The decimal with `digits` significant digits nearest to a positive quotient. Places below
`10 ^ finest` are not looked at: callers give a place of which the quotient is a multiple. -/
def ofRatio (digits : Nat) (finest : Int) (num den : Nat) : Decimal :=
  let last := Rounding.leadingExponent 10 log10 num den - (digits - 1 : Nat)
  let last := if last < finest then finest else last
  ⟨Rounding.unitsNearest 10 last num den, last⟩

/-- What a number text may decide for itself: from which leading exponent on it is written with an
exponent, and whether a whole number is marked by a point and a zero. -/
structure Layout where
  positionalBelow : Int
  marksWhole : Bool

/-- Exponents are written with a sign and at least two digits. -/
def exponentText (e : Int) : List Char :=
  let digits := Nat.toDigits 10 e.natAbs
  (if e < 0 then '-' else '+') :: (if digits.length < 2 then '0' :: digits else digits)

def positional (marksWhole : Bool) (leading : Int) (digits : List Char) : List Char :=
  if leading < 0 then '0' :: '.' :: List.replicate (-leading - 1).toNat '0' ++ digits
  else
    let whole := leading.toNat + 1
    if digits.length ≤ whole then
      digits ++ List.replicate (whole - digits.length) '0'
        ++ (if marksWhole then ['.', '0'] else [])
    else digits.take whole ++ '.' :: digits.drop whole

/-- One digit before the point, and no point where it is the only one. -/
def scientific (leading : Int) : List Char → List Char
  | [] => []
  | [digit] => digit :: 'e' :: exponentText leading
  | digit :: rest => digit :: '.' :: rest ++ 'e' :: exponentText leading

/-- The text of a positive decimal. Leading exponents from -4 on have a positional form. -/
def Layout.write (layout : Layout) (d : Decimal) : List Char :=
  if -4 ≤ d.leading && d.leading < layout.positionalBelow then
    positional layout.marksWhole d.leading d.significantDigits
  else scientific d.leading d.significantDigits

end Decimal

end JsonWriter
