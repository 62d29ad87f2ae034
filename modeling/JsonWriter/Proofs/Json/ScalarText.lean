import JsonWriter.Proofs.Json.DecimalText
import JsonWriter.Proofs.Rounding
import JsonWriter.Scalar

/-! The texts of single values denote them. -/
namespace JsonWriter

namespace Binary64

/-- The number that is written for a finite one: the nearest with as many digits as the precision
allows. -/
def printed (precision : Nat) (x : Binary64) : ℚ :=
  Json.signed x.negative
    (if x.isZero then 0
    else (Decimal.ofRatio (significantDigits precision) x.finestPlace x.numerator
      x.denominator).toRat)

/-- What is no finite number is null. -/
def json (precision : Nat) (x : Binary64) : Json :=
  if x.isFinite then .number (x.printed precision) else .null

theorem zpow_finestPlace_le {x : Binary64} (h : x.isZero = false) :
    (10 : ℚ) ^ x.finestPlace ≤ x.numerator / x.denominator := by
  have hs := significand_pos h
  have hbase : 0 < 10 := by decide
  have hq := Rounding.scaled_le_iff x.numerator hbase x.denominator_pos x.finestPlace
  refine le_trans (le_of_eq ?_) (hq.1 ?_)
  · norm_num
  unfold numerator denominator finestPlace
  simp only [Nat.pow_eq]
  split
  case isTrue hneg =>
    have h0 : x.unitExponent.toNat = 0 := by omega
    simp only [h0, pow_zero, mul_one]
    calc
      2 ^ (-x.unitExponent).toNat ≤ 10 ^ (-x.unitExponent).toNat :=
        Nat.pow_le_pow_left (by decide) _
      _ ≤ x.significand * 10 ^ (-x.unitExponent).toNat := Nat.le_mul_of_pos_left _ hs
  case isFalse hneg =>
    have h0 : (-x.unitExponent).toNat = 0 := by omega
    simp only [h0, Int.toNat_zero, neg_zero, pow_zero, mul_one]
    exact Nat.mul_pos hs (Nat.two_pow_pos x.unitExponent.toNat)

end Binary64

namespace Json

theorem Magnitude.signed {t : List Char} {q : ℚ} (h : Magnitude t q) (negative : Bool) :
    Number (if negative then '-' :: t else t) (signed negative q) := by
  cases negative with
  | true => exact .negative h
  | false => exact .positive h

theorem number_ofInt (n : Int) : Number (Numeral.ofInt n) n := by
  have hnat : Magnitude (Nat.toDigits 10 n.natAbs) n.natAbs := by
    have hm := Magnitude.mk (whole_toDigits n.natAbs) .none .none
    have hrat : (Decimal.ofDigits (Nat.toDigits 10 n.natAbs) [] 0).toRat = n.natAbs := by
      simp [Decimal.ofDigits, Decimal.toRat]
    rwa [hrat, List.append_nil, List.append_nil] at hm
  unfold Numeral.ofInt
  split
  · rename_i hn
    have hq : (n : ℚ) = -(n.natAbs : ℚ) := by
      rw [Nat.cast_natAbs, abs_of_neg hn, Int.cast_neg, neg_neg]
    rw [hq]
    exact .negative hnat
  · rename_i hn
    have hq : (n : ℚ) = (n.natAbs : ℚ) := by
      rw [Nat.cast_natAbs, abs_of_nonneg (Int.not_lt.1 hn)]
    rw [hq]
    exact .positive hnat

theorem magnitude_magnitudeText (precision : Nat) (x : Binary64) :
    Magnitude (x.magnitudeText precision) (if x.isZero then 0
      else (Decimal.ofRatio (Binary64.significantDigits precision) x.finestPlace x.numerator
        x.denominator).toRat) := by
  unfold Binary64.magnitudeText
  split
  · have hm := Magnitude.mk (.inl rfl) .none .none
    have hrat : (Decimal.ofDigits ['0'] [] 0).toRat = 0 := by
      simp [Decimal.ofDigits, Decimal.toRat, Numeral.value, Nat.ofDigitChars]
    rwa [hrat] at hm
  · rename_i hz
    have hz : x.isZero = false := by simpa using hz
    have hnum : 0 < x.numerator :=
      Nat.mul_pos (Binary64.significand_pos hz) (Nat.pow_pos (by decide))
    have hpos := Decimal.coefficient_ofRatio_pos (Binary64.significantDigits precision) hnum
      x.denominator_pos (Binary64.zpow_finestPlace_le hz)
    exact magnitude_write _ hpos.ne'

theorem denotes_toJson (precision : Nat) (x : Binary64) :
    Denotes (x.toJson precision).toList (x.json precision) := by
  unfold Binary64.toJson Binary64.json
  split
  · have hn := (magnitude_magnitudeText precision x).signed x.negative
    rw [String.toList_ofList]
    exact .number hn
  · exact .nullWord

theorem unescaped?_of_shortForm? {c letter : Char} (h : Text.shortForm? c = some letter) :
    Document.unescaped? letter = some c := by
  unfold Text.shortForm? at h
  split at h
  all_goals cases h
  all_goals rfl

theorem quad?_digitChar : ∀ n < 128,
    Document.quad? '0' '0' (Nat.digitChar (n / 16)) (Nat.digitChar (n % 16)) = some n ∧
      Document.isHighSurrogate n = false ∧ Document.isLowSurrogate n = false := by
  decide

theorem Chars.escapeChar {t s : List Char} (h : Chars t s) (c : Char) :
    Chars (Text.escapeChar c ++ t) (c :: s) := by
  unfold Text.escapeChar
  split
  · rename_i letter hc
    exact .short (unescaped?_of_shortForm? hc) h
  · rename_i hc
    split
    · rename_i hcontrol
      have hlt : c.toNat < 128 := by
        simp only [Text.isControl, Bool.or_eq_true, decide_eq_true_eq, beq_iff_eq] at hcontrol
        omega
      obtain ⟨hq, hhigh, hlow⟩ := quad?_digitChar c.toNat hlt
      have hchar : Document.charOf c.toNat = c := by
        unfold Document.charOf
        rw [hhigh, hlow]
        exact Char.ofNat_toNat c
      have hcode := Chars.code hq (fun h => by rw [hhigh] at h; cases h) h
      rwa [hchar] at hcode
    · rename_i hcontrol
      have hspace : 0x20 ≤ c.toNat := by
        simp only [Text.isControl, Bool.or_eq_true, decide_eq_true_eq, beq_iff_eq] at hcontrol
        omega
      refine .plain hspace ?_ ?_ h
      · rintro rfl
        cases hc
      · rintro rfl
        cases hc

theorem chars_flatMap_escapeChar (s : List Char) : Chars (s.flatMap Text.escapeChar) s := by
  induction s with
  | nil => exact .nil
  | cons c s ih =>
      rw [List.flatMap_cons]
      exact ih.escapeChar c

theorem chars_escape (s : String) : Chars (Text.escape s).toList s.toList := by
  rw [Text.toList_escape]
  exact chars_flatMap_escapeChar s.toList

theorem toList_quote (s : String) :
    (Text.quote s).toList = '"' :: ((Text.escape s).toList ++ ['"']) := by
  simp [Text.quote]

theorem denotes_quote (s : String) : Denotes (Text.quote s).toList (.string s) := by
  have h := Denotes.string (chars_escape s)
  rwa [String.ofList_toList, ← toList_quote] at h

theorem member_quote {u : List Char} {v : Json} (k : String) (h : Spaced u v) :
    Member ((Text.quote k).toList ++ ':' :: u) (k, v) := by
  have hm := Member.mk .nil (chars_escape k) .nil h
  rw [String.ofList_toList] at hm
  rw [toList_quote]
  simpa only [List.nil_append, List.cons_append, List.append_assoc] using hm

end Json

namespace Numeral

theorem ofInt?_eq (n : Int) : ofInt? n =
    if maxDigits < (Nat.toDigits 10 n.natAbs).length then none
    else some (String.ofList (ofInt n)) := by
  have hdigits := Nat.length_toDigits_le_iff (b := 10) (n := n.natAbs) (k := maxDigits)
    (by decide) (by decide)
  unfold ofInt?
  rw [Nat.pow_eq]
  by_cases h : n.natAbs < 10 ^ maxDigits
  · rw [if_pos h, if_neg (Nat.not_lt.2 (hdigits.2 h))]
  · rw [if_neg h, if_pos (Nat.lt_of_not_le fun hle => h (hdigits.1 hle))]

end Numeral

namespace Scalar

theorem integerText_of_long {n : Int}
    (h : Numeral.maxDigits < (Nat.toDigits 10 n.natAbs).length) :
    integerText n = .error (.value .numeralTooLong) := by
  unfold integerText
  rw [Numeral.ofInt?_eq, if_pos h]

theorem integerText_of_short {n : Int}
    (h : ¬Numeral.maxDigits < (Nat.toDigits 10 n.natAbs).length) :
    integerText n = .ok (String.ofList (Numeral.ofInt n)) := by
  unfold integerText
  rw [Numeral.ofInt?_eq, if_neg h]

theorem check_digits {n : Nat} (h : n < 0x80000000) : (Precision.digits n).check = .ok n := by
  have hshort : ¬Numeral.maxDigits < (Nat.toDigits 10 (n : Int).natAbs).length := by
    have hdigits := (Nat.length_toDigits_le_iff (b := 10) (n := (n : Int).natAbs) (k := 10)
      (by decide) (by decide)).2 (by omega)
    have hmax : Numeral.maxDigits = 4300 := rfl
    omega
  simp only [Precision.check, integerText_of_short hshort]
  rw [if_neg (by omega), if_neg (by omega)]
  rfl

theorem float_digits (x : Binary64) (precision : Nat) : float (.float x) (.int precision) =
    if x.isFinite then do return x.toJson (← (Precision.digits precision).check)
    else return "null" := by
  have hprecision : Precision.ofValue (.int precision) = .ok (.digits precision) := by
    have hneg : ¬(precision : Int) < 0 := by omega
    rw [Precision.ofValue, if_neg hneg, Int.toNat_natCast]
  unfold float
  rw [hprecision]
  rfl

theorem float_of_not_finite {x : Binary64} (h : x.isFinite = false) (precision : Nat) :
    float (.float x) (.int precision) = .ok "null" := by
  rw [float_digits, h]
  rfl

theorem float_of_lt (x : Binary64) {precision : Nat} (h : precision < 0x80000000) :
    float (.float x) (.int precision) = .ok (x.toJson precision) := by
  rw [float_digits, check_digits h]
  by_cases hx : x.isFinite
  · rw [if_pos hx]
    rfl
  · rw [if_neg hx]
    unfold Binary64.toJson
    rw [if_neg hx]
    rfl

/-- Every precision of settings is of use. -/
theorem float_of_le (x : Binary64) {precision : Nat} (h : precision ≤ 17) :
    float (.float x) (.int precision) = .ok (x.toJson precision) :=
  float_of_lt x (by omega)

theorem integer_eq_ok {v : Value} {t : String} (h : integer v = .ok t) :
    ∃ n, v = .int n ∧ t.toList = Numeral.ofInt n := by
  cases v with
  | int n =>
      refine ⟨n, rfl, ?_⟩
      change integerText n = .ok t at h
      by_cases hlong : Numeral.maxDigits < (Nat.toDigits 10 n.natAbs).length
      · rw [integerText_of_long hlong] at h
        cases h
      · rw [integerText_of_short hlong] at h
        cases h
        exact String.toList_ofList
  | _ => cases h

theorem denotes_integer {n : Int} {t : String} (h : integer (.int n) = .ok t) :
    Json.Denotes t.toList (.number n) := by
  obtain ⟨m, hm, htext⟩ := integer_eq_ok h
  cases hm
  rw [htext]
  exact .number (Json.number_ofInt n)

theorem denotes_bool (v : Value) : Json.Denotes (bool v).toList (.bool v.isTrue) := by
  unfold bool
  cases v.isTrue with
  | true => exact .trueWord
  | false => exact .falseWord

theorem quote_eq_ok {v : Value} {t : String} (h : quote v = .ok t) :
    ∃ s, v = .text s ∧ t = Text.quote s := by
  cases v with
  | text s =>
      cases h
      exact ⟨s, rfl, rfl⟩
  | _ => cases h

theorem escape_eq_ok {v : Value} {t : String} (h : escape v = .ok t) :
    ∃ s, v = .text s ∧ t = Text.escape s := by
  cases v with
  | text s =>
      cases h
      exact ⟨s, rfl, rfl⟩
  | _ => cases h

theorem check_eq_ok {precision : Precision} {n : Nat} (h : precision.check = .ok n) :
    precision = .digits n := by
  cases precision with
  | digits m =>
      simp only [Precision.check, Bind.bind, Except.bind] at h
      split at h
      · cases h
      · split at h
        · cases h
        · split at h
          · cases h
          · cases h
            rfl
  | truth => cases h
  | float x =>
      simp only [Precision.check] at h
      split at h
      · cases h
      · cases h

theorem ofValue_eq_digits {v : Value} {n : Nat} (h : Precision.ofValue v = .ok (.digits n)) :
    v = .int n := by
  cases v with
  | int m =>
      simp only [Precision.ofValue] at h
      split at h
      · cases h
      · rename_i hneg
        cases h
        rw [Int.toNat_of_nonneg (Int.not_lt.1 hneg)]
  | float x =>
      simp only [Precision.ofValue] at h
      split at h
      · cases h
      · cases h
  | _ => cases h

/-- A number has the text of its value at a precision; only what is no finite number needs none. -/
theorem float_eq_ok {v precision : Value} {t : String} (h : float v precision = .ok t) :
    ∃ x, number v = .ok x ∧
      ∃ n : Nat, (x.isFinite = true → precision = .int n) ∧ t = x.toJson n := by
  cases hprecision : Precision.ofValue precision with
  | error fault =>
      unfold float at h
      rw [hprecision] at h
      cases h
  | ok p =>
      cases hnumber : number v with
      | error fault =>
          unfold float at h
          rw [hprecision, hnumber] at h
          cases h
      | ok x =>
          unfold float at h
          rw [hprecision, hnumber] at h
          change (if x.isFinite then do return x.toJson (← p.check) else return "null") = _ at h
          refine ⟨x, rfl, ?_⟩
          by_cases hx : x.isFinite = true
          · rw [if_pos hx] at h
            cases hcheck : p.check with
            | error fault =>
                rw [hcheck] at h
                cases h
            | ok n =>
                rw [hcheck] at h
                cases h
                rw [check_eq_ok hcheck] at hprecision
                exact ⟨n, fun _ => ofValue_eq_digits hprecision, rfl⟩
          · rw [if_neg hx] at h
            cases h
            refine ⟨0, fun h => absurd h hx, ?_⟩
            unfold Binary64.toJson
            rw [if_neg hx]

end Scalar

end JsonWriter
