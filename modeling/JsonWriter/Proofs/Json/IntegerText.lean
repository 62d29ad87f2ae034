import JsonWriter.Proofs.Json.Reading
import JsonWriter.Proofs.Json.ScalarText

/-! The texts of integers. Each integer has one, and each text but that of a negative zero is that of
the integer it denotes; only the number of digits is bounded. -/
namespace JsonWriter

namespace Json

/-- The texts that denote integers. Zero may have a minus. -/
inductive Integer : List Char → Int → Prop
  | positive {t} : Whole t → Integer t (Numeral.value t)
  | negative {t} : Whole t → Integer ('-' :: t) (-Numeral.value t)

def digitCount (t : List Char) : Nat := t.countP Char.isDigit

/-- Digits that do not begin with a zero are the numeral of the number they stand for. -/
theorem toDigits_value {t : List Char} (h : Digits t) (h0 : t.head? ≠ some '0') :
    Nat.toDigits 10 (Numeral.value t) = t := by
  -- Numerals grow at their end, so the induction takes the last digit off.
  induction t using List.reverseRecOn with
  | nil => exact absurd rfl h.1
  | append_singleton t c ih =>
      obtain ⟨hlt, hchar⟩ := Numeral.digitChar_of_isDigit (h.2 c (by simp))
      have hlast : Nat.toDigits 10 (c.toNat - '0'.toNat) = [c] := by
        rw [Nat.toDigits_of_lt_base hlt, hchar]
      rw [Numeral.value_concat]
      rcases eq_or_ne t [] with rfl | hne
      · rwa [Numeral.value, Nat.ofDigitChars_nil, Nat.mul_zero, Nat.zero_add]
      · rw [List.head?_append_of_ne_nil _ hne] at h0
        have hfront := ih ⟨hne, fun d hd => h.2 d (List.mem_append_left _ hd)⟩ h0
        have hpos : 0 < Numeral.value t := by
          rw [Nat.pos_iff_ne_zero]
          intro hzero
          rw [hzero] at hfront
          exact h0 (congrArg List.head? hfront.symm)
        rw [← Nat.toDigits_append_toDigits (by decide) hpos hlt, hfront, hlast]

theorem Whole.toDigits_value {t : List Char} (h : Whole t) :
    Nat.toDigits 10 (Numeral.value t) = t := by
  rcases h with rfl | ⟨hdigits, h0⟩
  · rfl
  · exact Json.toDigits_value hdigits h0

theorem Whole.digitCount_eq {t : List Char} (h : Whole t) : digitCount t = t.length := by
  rw [digitCount, List.countP_eq_length]
  rcases h with rfl | ⟨hdigits, -⟩
  · simp
  · exact hdigits.2

theorem integer_ofInt (n : Int) : Integer (Numeral.ofInt n) n := by
  have hwhole := whole_toDigits n.natAbs
  unfold Numeral.ofInt
  split
  · rename_i hn
    have hneg := Integer.negative hwhole
    rwa [Numeral.value_toDigits, Int.ofNat_natAbs_of_nonpos hn.le, neg_neg] at hneg
  · rename_i hn
    have hpos := Integer.positive hwhole
    rwa [Numeral.value_toDigits, Int.natAbs_of_nonneg (Int.not_lt.1 hn)] at hpos

/-- An integer has no other text, but that zero may have a minus. -/
theorem Integer.eq_ofInt {t : List Char} {n : Int} (h : Integer t n) (hzero : t ≠ ['-', '0']) :
    t = Numeral.ofInt n := by
  unfold Numeral.ofInt
  cases h with
  | @positive t hwhole =>
      rw [if_neg (by omega), Int.natAbs_natCast, hwhole.toDigits_value]
  | @negative t hwhole =>
      have hpos : 0 < Numeral.value t := by
        rw [Nat.pos_iff_ne_zero]
        intro hvalue
        have htext := hwhole.toDigits_value
        rw [hvalue] at htext
        exact hzero (congrArg ('-' :: ·) htext.symm)
      rw [if_pos (by omega), Int.natAbs_neg, Int.natAbs_natCast, hwhole.toDigits_value]

theorem head?_ofInt (n : Int) : (Numeral.ofInt n).head? = some '-' ↔ n < 0 := by
  unfold Numeral.ofInt
  split
  · rename_i hn
    exact iff_of_true rfl hn
  · rename_i hn
    refine iff_of_false ?_ hn
    obtain ⟨c, rest, htext, hdigit⟩ := (whole_toDigits n.natAbs).head
    rw [htext]
    rintro ⟨⟩
    cases hdigit

theorem digitCount_ofInt (n : Int) :
    digitCount (Numeral.ofInt n) = (Nat.toDigits 10 n.natAbs).length := by
  have hcount := (whole_toDigits n.natAbs).digitCount_eq
  unfold Numeral.ofInt
  split
  · rw [← hcount]
    exact List.countP_cons_of_neg nofun
  · exact hcount

end Json

namespace Scalar

open Json

theorem digitCount_le_iff (n : Int) :
    digitCount (Numeral.ofInt n) ≤ Numeral.maxDigits ↔ n.natAbs < 10 ^ Numeral.maxDigits := by
  rw [digitCount_ofInt]
  exact Nat.length_toDigits_le_iff (by decide) (by decide)

theorem integer_of_long {n : Int} (h : 10 ^ Numeral.maxDigits ≤ n.natAbs) :
    integer (.int n) = .error (.value .numeralTooLong) := by
  rw [← Nat.not_lt, ← digitCount_le_iff, digitCount_ofInt, Nat.not_le] at h
  rw [integer, integerText_of_long h]

theorem integer_of_short {n : Int} (h : digitCount (Numeral.ofInt n) ≤ Numeral.maxDigits) :
    integer (.int n) = .ok (String.ofList (Numeral.ofInt n)) := by
  rw [digitCount_ofInt] at h
  rw [integer, integerText_of_short (Nat.not_lt.2 h)]

/-- Integers are written exactly. One of at most 4300 digits has a text, which is read as the integer
and begins with a minus just if the integer is negative; and any text of it, if it has so few digits
and is no negative zero, is that text. The others are refused, whatever their sign. -/
theorem integer_canonical (n : Int) :
    (n.natAbs < 10 ^ 4300 →
      ∃ text : String, integer (.int n) = .ok text ∧ Integer text.toList n ∧
        (text.toList.head? = some '-' ↔ n < 0) ∧ (n = 0 → text = "0") ∧
        digitCount text.toList ≤ 4300 ∧ read? text.toList = some (.number n)) ∧
    (∀ text : String, Integer text.toList n → text ≠ "-0" → digitCount text.toList ≤ 4300 →
      integer (.int n) = .ok text) ∧
    (10 ^ 4300 ≤ n.natAbs → integer (.int n) = .error (.value .numeralTooLong)) := by
  have hmax : 4300 = Numeral.maxDigits := rfl
  rw [hmax]
  refine ⟨?_, ?_, integer_of_long⟩
  · intro hshort
    have hcount := (digitCount_le_iff n).2 hshort
    refine ⟨_, integer_of_short hcount, ?_⟩
    rw [String.toList_ofList]
    refine ⟨integer_ofInt n, head?_ofInt n, ?_, hcount, ?_⟩
    · rintro rfl
      rfl
    · exact read?_eq_some_iff.2 (Denotes.number (number_ofInt n)).spaced
  · intro text hinteger hzero hcount
    have htext : text.toList = Numeral.ofInt n := by
      refine hinteger.eq_ofInt ?_
      intro heq
      exact hzero (String.toList_inj.1 heq)
    rw [htext] at hcount
    rw [integer_of_short hcount, ← htext, String.ofList_toList]

/-- A negative number with a zero in it and a zero at its end, and the first that is too long. -/
theorem integer_canonical_negative :
    integer (.int (-1020)) = .ok "-1020" ∧ read? "-1020".toList = some (.number (-1020)) ∧
      integer (.int (-10 ^ 4300)) = .error (.value .numeralTooLong) := by
  have hwhole : Whole ['1', '0', '2', '0'] := .inr ⟨⟨nofun, by simp⟩, by simp⟩
  have hinteger : Integer "-1020".toList (-1020) := .negative hwhole
  have hlt : (-1020 : Int).natAbs < 10 ^ 4300 := by
    apply lt_of_lt_of_le (b := 10 ^ 4)
    · decide
    · exact pow_le_pow_right₀ (by decide) (by decide)
  obtain ⟨hshort, hcanonical, -⟩ := integer_canonical (-1020)
  have htext := hcanonical "-1020" hinteger (by decide) (by decide)
  obtain ⟨text, hok, -, -, -, -, hread⟩ := hshort hlt
  rw [htext] at hok
  cases hok
  refine ⟨htext, ?_, ?_⟩
  · simpa using hread
  · apply (integer_canonical (-10 ^ 4300)).2.2
    have hten : (10 : Int).natAbs = 10 := rfl
    rw [Int.natAbs_neg, Int.natAbs_pow, hten]

end Scalar
end JsonWriter
