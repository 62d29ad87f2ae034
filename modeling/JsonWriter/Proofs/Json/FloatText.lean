import JsonWriter.Proofs.Json.Number
import JsonWriter.Proofs.Json.ScalarText
import JsonWriter.Proofs.SignificantDigits

/-! The text of a floating-point number is that of the nearest decimal with as many significant
digits as the precision asks for. -/
namespace JsonWriter

namespace Binary64

/-- The magnitude of a finite number, by the exponent and the fraction that its bits hold. -/
def exact (x : Binary64) : ℚ :=
  let biased : ℕ := x.magnitude / 2 ^ 52
  let fraction : ℕ := x.magnitude % 2 ^ 52
  if biased = 0 then fraction * 2 ^ (-1074 : ℤ)
  else (2 ^ 52 + fraction : ℕ) * 2 ^ ((biased : ℤ) - 1075)

theorem exact_eq_significand (x : Binary64) : x.exact = x.significand * 2 ^ x.unitExponent := by
  have hleast : leastNormal = 2 ^ 52 := rfl
  unfold exact significand unitExponent
  dsimp only
  rw [hleast]
  by_cases h : x.magnitude < 2 ^ 52
  · have hbiased : x.magnitude / 2 ^ 52 = 0 := Nat.div_eq_of_lt h
    rw [if_pos hbiased, if_pos h, if_pos h, Nat.mod_eq_of_lt h]
  · have hbiased : x.magnitude / 2 ^ 52 ≠ 0 :=
      (Nat.div_pos (Nat.not_lt.1 h) (by decide)).ne'
    rw [if_neg hbiased, if_neg h, if_neg h]

theorem exact_eq_div (x : Binary64) : x.exact = x.numerator / x.denominator := by
  rw [exact_eq_significand]
  unfold numerator denominator
  simp only [Nat.pow_eq]
  push_cast
  rcases Int.le_total 0 x.unitExponent with he | he
  · obtain ⟨n, hn⟩ := Int.eq_ofNat_of_zero_le he
    have h0 : (-(n : Int)).toNat = 0 := by omega
    rw [hn, h0, Int.toNat_natCast, pow_zero, div_one, zpow_natCast]
  · obtain ⟨n, hn⟩ := Int.eq_ofNat_of_zero_le (Int.neg_nonneg_of_nonpos he)
    obtain hn : x.unitExponent = -(n : Int) := by omega
    have h0 : (-(n : Int)).toNat = 0 := by omega
    rw [hn, h0, neg_neg, Int.toNat_natCast, pow_zero, mul_one, zpow_neg, zpow_natCast,
      div_eq_mul_inv]

/-- No finite number has digits below its finest place. -/
theorem exists_finest (x : Binary64) : ∃ k : ℕ, x.exact = k * 10 ^ x.finestPlace := by
  rw [exact_eq_significand]
  unfold finestPlace
  split
  case isFalse he =>
    obtain ⟨n, hn⟩ := Int.eq_ofNat_of_zero_le (Int.not_lt.1 he)
    refine ⟨x.significand * 2 ^ n, ?_⟩
    rw [hn, zpow_zero, mul_one, zpow_natCast]
    push_cast
    rfl
  case isTrue he =>
    obtain ⟨n, hn⟩ := Int.eq_ofNat_of_zero_le (Int.neg_nonneg_of_nonpos he.le)
    obtain hn : x.unitExponent = -(n : Int) := by omega
    refine ⟨x.significand * 5 ^ n, ?_⟩
    have hfive : (10 : ℚ) ^ n = 2 ^ n * 5 ^ n := by
      rw [← mul_pow]
      norm_num
    rw [hn, zpow_neg, zpow_neg, zpow_natCast, zpow_natCast, hfive]
    push_cast
    field_simp

theorem significantDigits_eq (precision : Nat) : significantDigits precision = max precision 1 := by
  unfold significantDigits
  split <;> omega

/-- The decimal that is written for a number at a precision. -/
def rounded (precision : Nat) (x : Binary64) : Decimal :=
  Decimal.ofRatio (significantDigits precision) x.finestPlace x.numerator x.denominator

variable {x : Binary64}

theorem numerator_pos (h : x.isZero = false) : 0 < x.numerator :=
  Nat.mul_pos (significand_pos h) (Nat.pow_pos (by decide))

theorem coefficient_rounded_ne_zero (precision : Nat) (h : x.isZero = false) :
    (x.rounded precision).coefficient ≠ 0 :=
  (Decimal.coefficient_ofRatio_pos (significantDigits precision) (numerator_pos h)
    x.denominator_pos (zpow_finestPlace_le h)).ne'

theorem magnitudeText_eq_write (h : x.isZero = false) (precision : ℕ) :
    x.magnitudeText precision = (jsonLayout precision).write (x.rounded precision) := by
  unfold magnitudeText
  rw [h]
  rfl

/-- What is written is the nearest decimal, and its first digit stands where the text says. -/
theorem roundsTo_rounded (precision : Nat) (h : x.isZero = false) :
    Decimal.RoundsTo (max precision 1) x.exact (x.rounded precision).toRat
      (x.rounded precision).leading := by
  have hdigits : 1 ≤ max precision 1 := le_max_right _ _
  have hfinest := x.exists_finest
  rw [exact_eq_div] at hfinest ⊢
  obtain ⟨X, hrounds⟩ :=
    Decimal.roundsTo_ofRatio hdigits (numerator_pos h) x.denominator_pos hfinest
  rw [← significantDigits_eq] at hrounds
  have hlead := hrounds.hasDigits.eq_leading (by rwa [significantDigits_eq])
    (coefficient_rounded_ne_zero precision h)
  rw [hlead] at hrounds
  rw [← significantDigits_eq]
  exact hrounds

end Binary64

open Json Decimal

/-- What holds of the text of a finite number that is not zero: it denotes the nearest decimal, and
the leading exponent of that decimal decides over its form. -/
theorem Binary64.magnitudeText_form {x : Binary64} (precision : Nat) (h : x.isZero = false)
    {d : ℚ} {X : ℤ} (hrounds : RoundsTo (max precision 1) x.exact d X) :
    Magnitude (x.magnitudeText precision) d ∧
    (Fixed (x.magnitudeText precision) d ↔ -4 ≤ X ∧ X < max precision 1) ∧
    (Scientific (x.magnitudeText precision) X d ↔ ¬(-4 ≤ X ∧ X < max precision 1)) := by
  have hcoefficient := coefficient_rounded_ne_zero precision h
  obtain ⟨rfl, rfl⟩ :=
    hrounds.unique (le_max_right _ _) (roundsTo_rounded precision h)
  have htext : x.magnitudeText precision =
      Layout.write ⟨(max precision 1 : ℕ), false⟩ (x.rounded precision) := by
    rw [magnitudeText_eq_write h, jsonLayout, significantDigits_eq]
  rw [htext]
  push_cast
  refine ⟨magnitude_write _ hcoefficient, ?_⟩
  by_cases hlead : -4 ≤ (x.rounded precision).leading ∧
      (x.rounded precision).leading < max (precision : ℤ) 1
  · have hfixed := fixed_write _ hcoefficient hlead
    exact ⟨iff_of_true hfixed hlead, iff_of_false hfixed.not_scientific (not_not.2 hlead)⟩
  · have hscientific := scientific_write _ hcoefficient hlead
    exact ⟨iff_of_false (fun hfixed => hfixed.not_scientific hscientific) hlead,
      iff_of_true hscientific hlead⟩

/-- Numbers are correctly rounded. What is no finite number is null, at every precision. For a finite
one and every precision below 2 to the 31 the text begins with a minus just if the sign bit is set,
and a zero has the text 0 after its sign. For all others there is one nearest decimal with as many
significant digits as the precision asks for, at least one; the text denotes exactly that decimal,
with no digit to spare, and has no exponent just if the leading exponent of that decimal is from -4
on and below the precision. -/
theorem Scalar.float_correctly_rounded (x : Binary64) (precision : Nat) :
    (x.isFinite = false → float (.float x) (.int precision) = .ok "null") ∧
    (x.isFinite = true → precision < 2 ^ 31 →
      ∃ (text : String) (body : List Char), float (.float x) (.int precision) = .ok text ∧
        text.toList = (if x.negative then '-' :: body else body) ∧
        (text.toList.head? = some '-' ↔ x.negative = true) ∧
        (x.isZero = true → body = ['0'] ∧ Number text.toList 0) ∧
        (x.isZero = false →
          (∃ d X, RoundsTo (max precision 1) x.exact d X) ∧
          ∀ d X, RoundsTo (max precision 1) x.exact d X →
            Number text.toList (signed x.negative d) ∧
            (Fixed body d ↔ -4 ≤ X ∧ X < max precision 1) ∧
            (Scientific body X d ↔ ¬(-4 ≤ X ∧ X < max precision 1)))) := by
  refine ⟨fun h => float_of_not_finite h precision, ?_⟩
  intro hfinite hprecision
  have htext : (x.toJson precision).toList =
      if x.negative then '-' :: x.magnitudeText precision else x.magnitudeText precision := by
    unfold Binary64.toJson
    rw [if_pos hfinite, String.toList_ofList]
  have hmagnitude := magnitude_magnitudeText precision x
  refine ⟨_, x.magnitudeText precision, float_of_lt x hprecision, htext, ?_, ?_, ?_⟩
  · obtain ⟨c, rest, hbody, hdigit⟩ := hmagnitude.head
    rw [htext, hbody]
    cases x.negative with
    | true => exact iff_of_true rfl rfl
    | false =>
        refine iff_of_false ?_ nofun
        rintro ⟨⟩
        cases hdigit
  · intro hzero
    have hbody : x.magnitudeText precision = ['0'] := if_pos hzero
    rw [hzero, if_pos rfl] at hmagnitude
    have hnumber := hmagnitude.signed x.negative
    rw [htext]
    refine ⟨hbody, ?_⟩
    cases hx : x.negative with
    | true => simpa [signed, hx] using hnumber
    | false => simpa [signed, hx] using hnumber
  · intro h
    refine ⟨⟨_, _, Binary64.roundsTo_rounded precision h⟩, ?_⟩
    intro d X hrounds
    obtain ⟨hd, hform⟩ := Binary64.magnitudeText_form precision h hrounds
    rw [htext]
    exact ⟨hd.signed x.negative, hform⟩

/-- A carry through all digits moves the leading exponent up to the precision, and the number gets an
exponent. -/
theorem Scalar.float_correctly_rounded_carry :
    let x : Binary64 := ⟨false, 0x412e847f00000000, by decide⟩
    x.exact = 1999999 / 2 ∧ float (.float x) (.int (6 : ℕ)) = .ok "1e+06" ∧
      ∃ d X, RoundsTo 6 (1999999 / 2) d X ∧ Number "1e+06".toList d ∧ ¬(-4 ≤ X ∧ X < 6) := by
  intro x
  have hexact : x.exact = 1999999 / 2 := by norm_num [x, Binary64.exact]
  have hshown : x.toJson 6 = "1e+06" := by decide
  have htext : float (.float x) (.int (6 : ℕ)) = .ok "1e+06" := by
    rw [float_of_lt x (by decide), hshown]
  obtain ⟨text, body, hok, hbody, -, -, hform⟩ :=
    (float_correctly_rounded x 6).2 (by decide) (by decide)
  obtain ⟨⟨d, X, hrounds⟩, hform⟩ := hform (by decide)
  obtain ⟨hnumber, hfixed, -⟩ := hform d X hrounds
  rw [htext] at hok
  cases hok
  refine ⟨hexact, htext, d, X, hexact ▸ hrounds, hnumber, ?_⟩
  intro hlead
  have hbody : "1e+06".toList = body := hbody
  apply (hfixed.2 hlead).not_mem_e
  rw [← hbody]
  decide

end JsonWriter
