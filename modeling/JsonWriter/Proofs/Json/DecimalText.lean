import JsonWriter.Proofs.Json.NumberForm

/-! The text of a decimal denotes the decimal, in each of its layouts, with no digit to spare. -/
namespace JsonWriter.Json

theorem digits_toDigits (n : Nat) : Digits (Nat.toDigits 10 n) :=
  ⟨Nat.toDigits_ne_nil, fun _ hc => Nat.isDigit_of_mem_toDigits (by decide) (by decide) hc⟩

theorem head?_toDigits {n : Nat} (h : 0 < n) : (Nat.toDigits 10 n).head? ≠ some '0' := by
  induction n using Nat.strongRecOn with
  | ind n ih =>
      by_cases hn : n < 10
      · rw [Nat.toDigits_of_lt_base hn]
        intro h0
        have hz : ∀ m < 10, 0 < m → Nat.digitChar m ≠ '0' := by decide
        exact hz n hn h (Option.some.inj h0)
      · rw [Nat.toDigits_of_base_le (by decide) (Nat.not_lt.1 hn), List.head?_append_of_ne_nil]
        · exact ih (n / 10) (by omega) (by omega)
        · exact Nat.toDigits_ne_nil

theorem whole_toDigits (n : Nat) : Whole (Nat.toDigits 10 n) := by
  rcases Nat.eq_zero_or_pos n with rfl | h
  · exact .inl (Nat.toDigits_zero 10)
  · exact .inr ⟨digits_toDigits n, head?_toDigits h⟩

theorem value_append_replicate (ds : List Char) (k : Nat) :
    Numeral.value (ds ++ List.replicate k '0') = 10 ^ k * Numeral.value ds := by
  rw [Numeral.value, Nat.ofDigitChars_append, Nat.ofDigitChars_replicate_zero, Numeral.value]

theorem value_zeros_append (k : Nat) (ds : List Char) :
    Numeral.value (List.replicate k '0' ++ ds) = Numeral.value ds := by
  rw [Numeral.value, Nat.ofDigitChars_append, Nat.ofDigitChars_replicate_zero, Nat.mul_zero,
    Numeral.value]

theorem eq_append_replicate (l : List Char) :
    ∃ k, l = (l.reverse.dropWhile (· == '0')).reverse ++ List.replicate k '0' := by
  obtain ⟨k, hk⟩ : ∃ k, l.reverse.takeWhile (· == '0') = List.replicate k '0' := by
    refine ⟨_, List.eq_replicate_of_mem ?_⟩
    intro c hc
    simpa using List.mem_takeWhile_imp hc
  refine ⟨k, ?_⟩
  rw [← List.reverse_replicate, ← hk, ← List.reverse_append, List.takeWhile_append_dropWhile,
    List.reverse_reverse]

/-- A decimal that is not zero, by its significant digits and its leading exponent. -/
structure Significant (d : Decimal) (ds : List Char) : Prop where
  digits : Digits ds
  head : ds.head? ≠ some '0'
  last : ds.getLast? ≠ some '0'
  toRat : d.toRat = Numeral.value ds * 10 ^ (d.leading + 1 - ds.length)

theorem significant_of_ne_zero {d : Decimal} (h : d.coefficient ≠ 0) :
    Significant d d.significantDigits := by
  obtain ⟨k, hk⟩ := eq_append_replicate (Nat.toDigits 10 d.coefficient)
  change _ = d.significantDigits ++ _ at hk
  have hvalue : d.coefficient = 10 ^ k * Numeral.value d.significantDigits := by
    rw [← value_append_replicate, ← hk, Numeral.value_toDigits]
  have hne : d.significantDigits ≠ [] := by
    intro hnil
    rw [hnil] at hvalue
    exact h (by rw [hvalue]; rfl)
  refine ⟨⟨hne, ?_⟩, ?_, ?_, ?_⟩
  · intro c hc
    apply (digits_toDigits d.coefficient).2
    rw [hk]
    exact List.mem_append_left _ hc
  · rw [← List.head?_append_of_ne_nil _ hne, ← hk]
    exact head?_toDigits (Nat.pos_of_ne_zero h)
  · intro hlast
    rw [Decimal.significantDigits, List.getLast?_reverse] at hlast
    have hfirst := List.head?_dropWhile_not (· == '0') (Nat.toDigits 10 d.coefficient).reverse
    rw [hlast] at hfirst
    cases hfirst
  · have hlen : d.leading + 1 - d.significantDigits.length = k + d.exponent := by
      have := congrArg List.length hk
      have := List.length_pos_iff.2 hne
      simp only [List.length_append, List.length_replicate] at *
      unfold Decimal.leading Decimal.log10
      omega
    rw [hlen, zpow_add₀ (by norm_num), Decimal.toRat]
    conv_lhs => rw [hvalue]
    push_cast
    rw [zpow_natCast]
    ring

theorem signedExponent_exponentText (e : Int) : SignedExponent (Decimal.exponentText e) e := by
  have hdigits := digits_toDigits e.natAbs
  have hvalue := Numeral.value_toDigits e.natAbs
  unfold Decimal.exponentText
  dsimp only
  by_cases hshort : (Nat.toDigits 10 e.natAbs).length < 2
  · rw [if_pos hshort]
    have hone : (Nat.toDigits 10 e.natAbs).length = 1 := by
      have hpos := List.length_pos_iff.2 hdigits.1
      omega
    refine .mk ⟨List.cons_ne_nil _ _, ?_⟩ (by simp [hone]) (fun _ => by simp [hone]) ?_
    · exact List.forall_mem_cons.2 ⟨rfl, hdigits.2⟩
    · exact (value_zeros_append 1 _).trans hvalue
  · rw [if_neg hshort]
    refine .mk hdigits (Nat.not_lt.1 hshort) ?_ hvalue
    -- Only zero has a numeral that begins with a zero, and that is short.
    intro hzero
    rcases Nat.eq_zero_or_pos e.natAbs with h0 | hpos
    · rw [h0] at hshort
      exact absurd (by decide) hshort
    · exact absurd hzero (head?_toDigits hpos)

/-- Digits in their places make up a decimal, if none are missing at the end. -/
theorem Significant.fixed {d : Decimal} {ds whole fraction digits : List Char}
    (h : Significant d ds) (hw : Whole whole) (hf : Fraction fraction digits)
    (hlast : digits.getLast? ≠ some '0') (hvalue : Numeral.value (whole ++ digits) = Numeral.value ds)
    (hplace : d.leading + 1 - ds.length = -digits.length) : Fixed (whole ++ fraction) d.toRat := by
  have hrat : d.toRat = (Decimal.ofDigits whole digits 0).toRat := by
    rw [h.toRat, ← hvalue, hplace, ← zero_sub]
    rfl
  rw [hrat]
  exact .mk hw hf hlast

theorem scientific_scientific {d : Decimal} {ds : List Char} (h : Significant d ds) :
    Scientific (Decimal.scientific d.leading ds) d.leading d.toRat := by
  have hexp := signedExponent_exponentText d.leading
  cases ds with
  | nil => exact absurd rfl h.digits.1
  | cons c rest =>
      have hdigit := h.digits.2 c List.mem_cons_self
      have hzero : c ≠ '0' := fun hc => h.head (congrArg some hc)
      have hrat : d.toRat = (Decimal.ofDigits [c] rest d.leading).toRat := by
        have hplace : d.leading + 1 - (c :: rest).length = d.leading - rest.length := by
          simp only [List.length_cons]
          omega
        rw [h.toRat, hplace]
        rfl
      rw [hrat]
      cases rest with
      | nil => exact .mk hdigit hzero .none nofun hexp
      | cons x rest =>
          have hfrac : Fraction ('.' :: x :: rest) (x :: rest) :=
            .point ⟨List.cons_ne_nil _ _, fun y hy => h.digits.2 y (List.mem_cons_of_mem c hy)⟩
          have hlast := h.last
          rw [List.getLast?_cons_cons] at hlast
          exact .mk hdigit hzero hfrac hlast hexp

theorem fixed_positional_of_neg {d : Decimal} {ds : List Char} (h : Significant d ds)
    (hneg : d.leading < 0) :
    Fixed ('0' :: '.' :: (List.replicate (-d.leading - 1).toNat '0' ++ ds)) d.toRat := by
  have hzeros : Digits (List.replicate (-d.leading - 1).toNat '0' ++ ds) := by
    refine ⟨List.append_ne_nil_of_right_ne_nil _ h.digits.1, ?_⟩
    intro c hc
    rcases List.mem_append.1 hc with hc | hc
    · rw [List.eq_of_mem_replicate hc]
      rfl
    · exact h.digits.2 c hc
  have hwhole : Whole ['0'] := .inl rfl
  refine h.fixed hwhole (.point hzeros) ?_ ?_ ?_
  · rw [List.getLast?_append_of_ne_nil _ h.digits.1]
    exact h.last
  · exact (value_zeros_append 1 _).trans (value_zeros_append _ ds)
  · simp only [List.length_append, List.length_replicate]
    omega

theorem fixed_positional_of_le {d : Decimal} {ds : List Char} (h : Significant d ds)
    (hneg : ¬ d.leading < 0) (hle : ds.length ≤ d.leading.toNat + 1) :
    Fixed (ds ++ List.replicate (d.leading.toNat + 1 - ds.length) '0') d.toRat := by
  have hzeros : Whole (ds ++ List.replicate (d.leading.toNat + 1 - ds.length) '0') := by
    refine .inr ⟨⟨List.append_ne_nil_of_left_ne_nil h.digits.1 _, ?_⟩, ?_⟩
    · intro c hc
      rcases List.mem_append.1 hc with hc | hc
      · exact h.digits.2 c hc
      · rw [List.eq_of_mem_replicate hc]
        rfl
    · rw [List.head?_append_of_ne_nil _ h.digits.1]
      exact h.head
  have hrat : d.toRat = (Decimal.ofDigits
      (ds ++ List.replicate (d.leading.toNat + 1 - ds.length) '0') [] 0).toRat := by
    have hexp : d.leading + 1 - ds.length = (d.leading.toNat + 1 - ds.length : Nat) := by omega
    rw [h.toRat, hexp, Decimal.ofDigits, Decimal.toRat, List.append_nil, value_append_replicate]
    push_cast
    simp [mul_comm]
  have hfixed := Fixed.mk hzeros .none nofun
  rwa [← hrat, List.append_nil] at hfixed

theorem fixed_positional_of_lt {d : Decimal} {ds : List Char} (h : Significant d ds)
    (hneg : ¬ d.leading < 0) (hlt : ¬ ds.length ≤ d.leading.toNat + 1) :
    Fixed (ds.take (d.leading.toNat + 1) ++ '.' :: ds.drop (d.leading.toNat + 1)) d.toRat := by
  have hsplit := List.take_append_drop (d.leading.toNat + 1) ds
  have htake : Whole (ds.take (d.leading.toNat + 1)) := by
    have hne : ds.take (d.leading.toNat + 1) ≠ [] := by
      rw [Ne, List.take_eq_nil_iff]
      rintro (h0 | hnil)
      · omega
      · exact h.digits.1 hnil
    refine .inr ⟨⟨hne, fun c hc => h.digits.2 c (List.mem_of_mem_take hc)⟩, ?_⟩
    rw [← List.head?_append_of_ne_nil _ hne, hsplit]
    exact h.head
  have hne : ds.drop (d.leading.toNat + 1) ≠ [] := by
    rw [Ne, List.drop_eq_nil_iff]
    exact hlt
  have hdrop : Digits (ds.drop (d.leading.toNat + 1)) :=
    ⟨hne, fun c hc => h.digits.2 c (List.mem_of_mem_drop hc)⟩
  refine h.fixed htake (.point hdrop) ?_ (by rw [hsplit]) ?_
  · rw [← List.getLast?_append_of_ne_nil _ hne, hsplit]
    exact h.last
  · rw [List.length_drop]
    omega

theorem fixed_positional {d : Decimal} {ds : List Char} (h : Significant d ds) :
    Fixed (Decimal.positional false d.leading ds) d.toRat := by
  unfold Decimal.positional
  split
  · rename_i hneg
    exact fixed_positional_of_neg h hneg
  · rename_i hneg
    dsimp only
    split
    · rename_i hle
      simpa using fixed_positional_of_le h hneg hle
    · rename_i hlt
      exact fixed_positional_of_lt h hneg hlt

variable (bound : Int) {d : Decimal}

theorem fixed_write (h : d.coefficient ≠ 0) (hlead : -4 ≤ d.leading ∧ d.leading < bound) :
    Fixed (Decimal.Layout.write ⟨bound, false⟩ d) d.toRat := by
  unfold Decimal.Layout.write
  rw [if_pos (by simpa using hlead)]
  exact fixed_positional (significant_of_ne_zero h)

theorem scientific_write (h : d.coefficient ≠ 0) (hlead : ¬(-4 ≤ d.leading ∧ d.leading < bound)) :
    Scientific (Decimal.Layout.write ⟨bound, false⟩ d) d.leading d.toRat := by
  unfold Decimal.Layout.write
  rw [if_neg (by simpa using hlead)]
  exact scientific_scientific (significant_of_ne_zero h)

theorem magnitude_write (h : d.coefficient ≠ 0) :
    Magnitude (Decimal.Layout.write ⟨bound, false⟩ d) d.toRat := by
  by_cases hlead : -4 ≤ d.leading ∧ d.leading < bound
  · exact (fixed_write bound h hlead).magnitude
  · exact (scientific_write bound h hlead).magnitude

section Same

open Decimal

theorem toDigits_mul_pow {c : ℕ} (hc : 0 < c) (k : ℕ) :
    Nat.toDigits 10 (c * 10 ^ k) = Nat.toDigits 10 c ++ List.replicate k '0' := by
  induction k with
  | zero => rw [pow_zero, mul_one, List.replicate_zero, List.append_nil]
  | succ k ih =>
      have hpos : 0 < c * 10 ^ k := by positivity
      rw [pow_succ, ← mul_assoc, Nat.toDigits_of_base_le (by decide) (by omega),
        Nat.mul_div_cancel _ (by decide), Nat.mul_mod_left, ih, List.replicate_succ',
        List.append_assoc]
      rfl

/-- Zeros at the end of the coefficient are not seen in a text. -/
theorem write_mul_pow (layout : Layout) {c : ℕ} (hc : 0 < c) (k : ℕ) (e : ℤ) :
    layout.write ⟨c * 10 ^ k, e⟩ = layout.write ⟨c, e + k⟩ := by
  have hleading : leading ⟨c * 10 ^ k, e⟩ = leading ⟨c, e + k⟩ := by
    have hlen := Nat.length_toDigits_pos (b := 10) (n := c)
    unfold leading log10
    rw [toDigits_mul_pow hc, List.length_append, List.length_replicate]
    dsimp only
    omega
  have hdigits : significantDigits ⟨c * 10 ^ k, e⟩ = significantDigits ⟨c, e + k⟩ := by
    unfold significantDigits
    rw [toDigits_mul_pow hc, List.reverse_append, List.reverse_replicate,
      List.dropWhile_append_of_pos]
    intro a ha
    rw [List.eq_of_mem_replicate ha]
    rfl
  unfold Layout.write
  rw [hleading, hdigits]

/-- A text shows a decimal, not how its coefficient and its exponent share its digits. -/
theorem write_eq_of_toRat (layout : Layout) {d d' : Decimal} (hd : d.coefficient ≠ 0)
    (hd' : d'.coefficient ≠ 0) (h : d.toRat = d'.toRat) : layout.write d = layout.write d' := by
  have hfiner : ∀ d d' : Decimal, d'.coefficient ≠ 0 → d.exponent ≤ d'.exponent →
      d.toRat = d'.toRat → layout.write d = layout.write d' := by
    rintro ⟨c, e⟩ ⟨c', e'⟩ hc' hle hrat
    obtain ⟨k, rfl⟩ := Int.le.dest hle
    obtain rfl : c = c' * 10 ^ k := by
      have hunit : (10 : ℚ) ^ e ≠ 0 := zpow_ne_zero e (by norm_num)
      unfold toRat at hrat
      dsimp only at hrat
      rw [zpow_add₀ (by norm_num), zpow_natCast, mul_comm ((10 : ℚ) ^ e), ← mul_assoc] at hrat
      have hcast := mul_right_cancel₀ hunit hrat
      exact_mod_cast hcast
    exact write_mul_pow layout (Nat.pos_of_ne_zero hc') k e
  rcases le_total d.exponent d'.exponent with hle | hle
  · exact hfiner d d' hd' hle h
  · exact (hfiner d' d hd hle h.symm).symm

end Same

end JsonWriter.Json
