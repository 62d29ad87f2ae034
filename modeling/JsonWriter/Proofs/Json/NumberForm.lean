import JsonWriter.Proofs.Json.Grammar

/-! The two forms of a positive number's text, each without a digit more than it needs: all digits in
their places, or one digit before the point and an exponent. -/
namespace JsonWriter.Json

/-- The digits in their places. A fraction does not end with a zero. -/
inductive Fixed : List Char → ℚ → Prop
  | mk {whole fraction digits} : Whole whole → Fraction fraction digits →
      digits.getLast? ≠ some '0' →
      Fixed (whole ++ fraction) (Decimal.ofDigits whole digits 0).toRat

/-- A sign and two digits, or more where two are too few. -/
inductive SignedExponent : List Char → ℤ → Prop
  | mk {digits e} : Digits digits → 2 ≤ digits.length →
      (digits.head? = some '0' → digits.length = 2) → Numeral.value digits = e.natAbs →
      SignedExponent ((if e < 0 then '-' else '+') :: digits) e

inductive Scientific : List Char → ℤ → ℚ → Prop
  | mk {digit fraction digits exponent e} : digit.isDigit = true → digit ≠ '0' →
      Fraction fraction digits → digits.getLast? ≠ some '0' → SignedExponent exponent e →
      Scientific (digit :: (fraction ++ 'e' :: exponent)) e (Decimal.ofDigits [digit] digits e).toRat

variable {t : List Char} {e : ℤ} {q r : ℚ}

theorem Digits.not_mem_e (h : Digits t) : 'e' ∉ t := by
  intro he
  have hdigit := h.2 'e' he
  cases hdigit

theorem Whole.not_mem_e (h : Whole t) : 'e' ∉ t := by
  rcases h with rfl | ⟨hdigits, -⟩
  · decide
  · exact hdigits.not_mem_e

theorem Fraction.not_mem_e {digits : List Char} (h : Fraction t digits) : 'e' ∉ t := by
  cases h with
  | none => exact nofun
  | point hdigits => simpa using hdigits.not_mem_e

theorem Fixed.not_mem_e (h : Fixed t q) : 'e' ∉ t := by
  cases h with
  | mk hwhole hfraction _ => simp [hwhole.not_mem_e, hfraction.not_mem_e]

theorem Fixed.not_scientific (h : Fixed t q) : ¬Scientific t e r := by
  have hnot := h.not_mem_e
  rintro ⟨-, -, -, -, -⟩
  simp at hnot

theorem Fixed.magnitude (h : Fixed t q) : Magnitude t q := by
  cases h with
  | mk hwhole hfraction _ =>
      have hm := Magnitude.mk hwhole hfraction .none
      rwa [List.append_nil] at hm

theorem SignedExponent.exponent (h : SignedExponent t e) {letter : Char}
    (hletter : letter = 'e' ∨ letter = 'E') : Exponent (letter :: t) e := by
  cases h with
  | @mk digits e hdigits _ _ hvalue =>
      by_cases he : e < 0
      · have hexp := Exponent.written hletter .minus hdigits
        rw [hvalue, signed, if_pos rfl, Int.ofNat_natAbs_of_nonpos (Int.le_of_lt he),
          neg_neg] at hexp
        rwa [if_pos he]
      · have hexp := Exponent.written hletter .plus hdigits
        rw [hvalue, signed, if_neg (by decide), Int.natAbs_of_nonneg (Int.not_lt.1 he)] at hexp
        rwa [if_neg he]

theorem Scientific.magnitude (h : Scientific t e q) : Magnitude t q := by
  cases h with
  | @mk digit fraction digits exponent e hdigit hzero hfraction _ hexponent =>
      have hwhole : Whole [digit] := by
        refine .inr ⟨⟨List.cons_ne_nil _ _, ?_⟩, ?_⟩
        · intro c hc
          rwa [List.eq_of_mem_singleton hc]
        · exact fun h => hzero (Option.some.inj h)
      exact .mk hwhole hfraction (hexponent.exponent (.inl rfl))

end JsonWriter.Json
