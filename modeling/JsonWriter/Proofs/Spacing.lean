import JsonWriter.Proofs.SignificantDigits

/-! How far apart numbers with so many digits lie, in any base: two that differ do so by a share of
either that only the number of digits decides. What is nearer to one of them than half that share
is rounded to it. -/
namespace JsonWriter

namespace Rounding

theorem mul_zpow_add {base : ℕ} (hbase : base ≠ 0) (m k : ℕ) (e : ℤ) :
    (m : ℚ) * base ^ (e + k) = (m * base ^ k : ℕ) * base ^ e := by
  rw [zpow_add₀ (Nat.cast_ne_zero.2 hbase), zpow_natCast]
  push_cast
  ring

/-- Two numbers of at most so many digits that differ lie apart by a share of the first, provided
that it has all its digits where its unit is the greater one. -/
theorem le_mul_abs_sub (base digits : ℕ) {m n : ℕ} {e f : ℤ} (hbase : 1 < base)
    (hm : m < base ^ digits) (hn : n < base ^ digits) (hfull : f < e → base ^ digits ≤ m * base)
    (hne : (m : ℚ) * base ^ e ≠ n * base ^ f) :
    (m : ℚ) * base ^ e ≤ base ^ digits * |(m : ℚ) * base ^ e - n * base ^ f| := by
  have hzero : base ≠ 0 := by omega
  have hunit : ∀ e : ℤ, (0 : ℚ) < (base : ℚ) ^ e :=
    fun e => zpow_pos (Nat.cast_pos.2 (Nat.pos_of_ne_zero hzero)) e
  rcases Int.lt_or_le f e with hlt | hle
  · obtain ⟨k, rfl⟩ := Int.le.dest hlt.le
    rw [mul_zpow_add hzero] at hne ⊢
    -- In units of the second number the first one is at least a power of the base.
    have hpower : base ^ digits ≤ m * base ^ k := by
      apply (hfull hlt).trans
      apply Nat.mul_le_mul_left m
      exact Nat.le_self_pow (by omega) base
    have hpower' : (base : ℚ) ^ digits ≤ (m * base ^ k : ℕ) := by exact_mod_cast hpower
    have hstep : (n : ℚ) + 1 ≤ base ^ digits := by exact_mod_cast hn
    have hdist : ((m * base ^ k : ℕ) : ℚ) ≤ base ^ digits * ((m * base ^ k : ℕ) - n) := by
      nlinarith
    rw [← sub_mul, abs_mul, abs_of_pos (hunit f), ← mul_assoc]
    apply mul_le_mul_of_nonneg_right _ (hunit f).le
    exact hdist.trans (mul_le_mul_of_nonneg_left (le_abs_self _) (by positivity))
  · obtain ⟨k, rfl⟩ := Int.le.dest hle
    rw [mul_zpow_add hzero] at hne ⊢
    have hdiffer : m ≠ n * base ^ k := by
      intro heq
      exact hne (by rw [← heq])
    rw [← sub_mul, abs_mul, abs_of_pos (hunit e), ← mul_assoc]
    apply mul_le_mul_of_nonneg_right _ (hunit e).le
    calc
      (m : ℚ) ≤ base ^ digits * 1 := by
        rw [mul_one]
        exact_mod_cast hm.le
      _ ≤ base ^ digits * |(m : ℚ) - (n * base ^ k : ℕ)| :=
        mul_le_mul_of_nonneg_left (one_le_abs_sub hdiffer) (by positivity)

end Rounding

namespace Decimal

variable {digits : ℕ} {q d d' : ℚ} {X X' : ℤ}

theorem HasDigits.pos (h : HasDigits digits d X) : 0 < d := (ten_zpow_pos X).trans_le h.le

theorem HasDigits.le_mul_abs_sub (hdigits : 1 ≤ digits) (h : HasDigits digits d X)
    (h' : HasDigits digits d' X') (hne : d ≠ d') : d ≤ 10 ^ digits * |d - d'| := by
  obtain ⟨m, hfull, hm, rfl⟩ := h
  obtain ⟨n, -, hn, rfl⟩ := h'
  have hpower : 10 ^ digits ≤ m * 10 := by
    calc
      10 ^ digits = 10 ^ (digits - 1) * 10 := by rw [← pow_succ, Nat.sub_add_cancel hdigits]
      _ ≤ m * 10 := Nat.mul_le_mul_right 10 hfull
  have hspace := Rounding.le_mul_abs_sub 10 digits (e := X - (digits - 1 : ℕ))
    (f := X' - (digits - 1 : ℕ)) (by decide) hm hn fun _ => hpower
  push_cast at hspace
  exact hspace hne

/-- What is nearer to a decimal than half the space around it is rounded to that decimal. -/
theorem HasDigits.roundsTo_of_near (hdigits : 1 ≤ digits) (h : HasDigits digits d X)
    (hnear : 2 * 10 ^ digits * |q - d| < d) : RoundsTo digits q d X := by
  have hless : ∀ d' X', HasDigits digits d' X' → d' ≠ d → |q - d| < |q - d'| := by
    intro d' X' h' hne
    have hspace := h.le_mul_abs_sub hdigits h' hne.symm
    have htriangle : |d - d'| ≤ |q - d| + |q - d'| := by
      rw [abs_sub_comm q d]
      exact abs_sub_le d q d'
    have hpos : (0 : ℚ) < 10 ^ digits := by positivity
    nlinarith
  refine ⟨h, ?_, ?_⟩
  · intro d' X' h'
    by_cases heq : d' = d
    · rw [heq]
    · exact (hless d' X' h' heq).le
  · intro d' X' h' heq hne
    exact absurd heq (hless d' X' h' hne).ne'

/-- What rounding to so many digits changes of a number is a small share of it. -/
theorem RoundsTo.abs_sub_le (hdigits : 1 ≤ digits) (hq : 0 < q) (h : RoundsTo digits q d X) :
    2 * 10 ^ (digits - 1) * |q - d| ≤ q := by
  have hlow : (10 : ℚ) ^ Int.log 10 q ≤ q := by
    exact_mod_cast Int.zpow_log_le_self (b := 10) (by decide) hq
  have hhigh : q < (10 : ℚ) ^ (Int.log 10 q + 1) := by
    exact_mod_cast Int.lt_zpow_succ_log_self (b := 10) (by decide) q
  generalize Int.log 10 q = lead at hlow hhigh
  have hunit := ten_zpow_pos (lead - (digits - 1 : ℕ))
  have hleast := least_units digits lead
  have hgreatest := greatest_units hdigits lead
  -- The number lies between two neighbours with so many digits, and one of them is near.
  obtain ⟨n, hbelow, habove⟩ :
      ∃ n : ℕ, n * 10 ^ (lead - (digits - 1 : ℕ)) ≤ q ∧
        q < (n + 1 : ℕ) * 10 ^ (lead - (digits - 1 : ℕ)) := by
    refine ⟨⌊q / 10 ^ (lead - (digits - 1 : ℕ))⌋₊, ?_, ?_⟩
    · rw [← le_div_iff₀ hunit]
      exact Nat.floor_le (by positivity)
    · rw [← div_lt_iff₀ hunit]
      push_cast
      exact Nat.lt_floor_add_one _
  have hn_low : 10 ^ (digits - 1) < n + 1 := by
    have hcast := lt_of_mul_lt_mul_right ((hleast.trans_le hlow).trans_lt habove) hunit.le
    exact_mod_cast hcast
  have hn_high : n < 10 ^ digits := by
    have hcast := lt_of_mul_lt_mul_right (hbelow.trans_lt (hhigh.trans_eq hgreatest.symm)) hunit.le
    exact_mod_cast hcast
  obtain ⟨Y, -, hY⟩ := hasDigits_of_le hdigits (n := n) (by omega) (by omega) lead
  obtain ⟨Z, -, hZ⟩ := hasDigits_of_le hdigits (n := n + 1) (by omega) (by omega) lead
  have hdown := h.nearest _ Y hY
  have hup := h.nearest _ Z hZ
  rw [abs_of_nonneg (sub_nonneg.2 hbelow)] at hdown
  rw [abs_of_neg (sub_neg.2 habove), neg_sub] at hup
  push_cast at hup
  have hhalf : 2 * |q - d| ≤ 10 ^ (lead - (digits - 1 : ℕ)) := by linarith
  calc
    2 * 10 ^ (digits - 1) * |q - d| = 10 ^ (digits - 1) * (2 * |q - d|) := by ring
    _ ≤ 10 ^ (digits - 1) * 10 ^ (lead - (digits - 1 : ℕ)) :=
      mul_le_mul_of_nonneg_left hhalf (by positivity)
    _ ≤ q := hleast.trans_le hlow

end Decimal
end JsonWriter
