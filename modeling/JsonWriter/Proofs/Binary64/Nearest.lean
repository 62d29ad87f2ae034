import JsonWriter.Proofs.Json.FloatText
import JsonWriter.Proofs.Spacing

/-! The finite number of 64 bits that is nearest to an exact number. -/
namespace JsonWriter.Binary64

/-- The exact number that the bits of a finite one stand for. -/
def value (x : Binary64) : ℚ := Json.signed x.negative x.exact

def largest : Binary64 := ⟨false, infinity - 1, by decide⟩

/-- The finite number that is nearest to an exact one. Of two that are equally near it is the one
whose last bit is zero. -/
structure IsNearest (q : ℚ) (y : Binary64) : Prop where
  finite : y.isFinite = true
  nearest : ∀ z : Binary64, z.isFinite = true → |q - y.value| ≤ |q - z.value|
  even : ∀ z : Binary64, z.isFinite = true → |q - z.value| = |q - y.value| → z.value ≠ y.value →
    Even y.magnitude

variable {x y : Binary64}

theorem two_zpow_pos (e : ℤ) : (0 : ℚ) < 2 ^ e := zpow_pos (by norm_num) e

theorem two_pow_mul_zpow (k : ℕ) (e : ℤ) : (2 : ℚ) ^ k * 2 ^ e = 2 ^ (e + k) := by
  rw [zpow_add₀ (by norm_num), zpow_natCast, mul_comm]

theorem least_units (unit : ℤ) : (leastNormal : ℚ) * 2 ^ unit = 2 ^ (unit + 52) := by
  have hleast : (leastNormal : ℚ) = 2 ^ 52 := by norm_num [leastNormal]
  rw [hleast]
  exact two_pow_mul_zpow 52 unit

theorem isFinite_iff : x.isFinite = true ↔ x.magnitude < infinity := decide_eq_true_iff

section Magnitudes

theorem exact_nonneg (x : Binary64) : 0 ≤ x.exact := by
  rw [exact_eq_significand]
  exact mul_nonneg (Nat.cast_nonneg _) (two_zpow_pos _).le

theorem exact_eq_zero (h : x.isZero = true) : x.exact = 0 := by
  have hmagnitude : x.magnitude = 0 := by simpa [isZero] using h
  have hunits : x.significand = 0 := by
    unfold significand
    rw [hmagnitude]
    rfl
  rw [exact_eq_significand, hunits, Nat.cast_zero, zero_mul]

theorem exact_pos (h : x.isZero = false) : 0 < x.exact := by
  have hunits : (0 : ℚ) < x.significand := Nat.cast_pos.2 (significand_pos h)
  rw [exact_eq_significand]
  exact mul_pos hunits (two_zpow_pos _)

theorem unitExponent_ge (x : Binary64) : -1074 ≤ x.unitExponent := by
  unfold unitExponent leastNormal
  split <;> omega

/-- Above the finest unit the leading bit is there. -/
theorem leastNormal_le_significand (h : -1074 < x.unitExponent) : leastNormal ≤ x.significand := by
  revert h
  unfold unitExponent significand leastNormal
  split <;> omega

/-- The magnitudes of one unit follow on those of the unit below it. -/
theorem magnitude_eq (x : Binary64) :
    x.magnitude = (x.unitExponent + 1074).toNat * leastNormal + x.significand := by
  unfold unitExponent significand leastNormal
  split <;> omega

/-- What a magnitude stands for, by a number of units that may reach the next exponent. -/
theorem exact_eq_of_magnitude {unit : ℤ} {n : ℕ} (hunit : -1074 ≤ unit) (hn : n ≤ 2 * leastNormal)
    (hfull : -1074 < unit → leastNormal ≤ n)
    (h : x.magnitude = (unit + 1074).toNat * leastNormal + n) : x.exact = n * 2 ^ unit := by
  rw [exact_eq_significand]
  rcases Nat.lt_or_eq_of_le hn with hlt | rfl
  · have hsame : x.unitExponent = unit ∧ x.significand = n := by
      unfold unitExponent significand
      unfold leastNormal at *
      split <;> omega
    rw [hsame.1, hsame.2]
  · have hnext : x.unitExponent = unit + 1 ∧ x.significand = leastNormal := by
      unfold unitExponent significand
      unfold leastNormal at *
      split <;> omega
    rw [hnext.1, hnext.2, zpow_add_one₀ (by norm_num)]
    push_cast
    ring

theorem exact_lt (x : Binary64) : x.exact < 2 ^ (x.unitExponent + 53) := by
  have hcast : (x.significand : ℚ) < 2 ^ 53 := by exact_mod_cast x.significand_lt
  rw [exact_eq_significand, add_comm, zpow_add₀ (by norm_num)]
  exact mul_lt_mul_of_pos_right hcast (two_zpow_pos _)

theorem zpow_le_exact (h : -1074 < x.unitExponent) : 2 ^ (x.unitExponent + 52) ≤ x.exact := by
  rw [exact_eq_significand, ← least_units]
  apply mul_le_mul_of_nonneg_right _ (two_zpow_pos _).le
  exact Nat.cast_le.2 (leastNormal_le_significand h)

theorem exact_lt_exact (h : x.magnitude < y.magnitude) : x.exact < y.exact := by
  have hx := x.magnitude_eq
  have hy := y.magnitude_eq
  have hsx := x.significand_lt
  have hsy := y.significand_lt
  have hux := x.unitExponent_ge
  have huy := y.unitExponent_ge
  have hfx : -1074 < x.unitExponent → leastNormal ≤ x.significand := leastNormal_le_significand
  unfold leastNormal at *
  rcases lt_trichotomy x.unitExponent y.unitExponent with hlt | heq | hgt
  · calc
      x.exact < 2 ^ (x.unitExponent + 53) := x.exact_lt
      _ ≤ 2 ^ (y.unitExponent + 52) := zpow_le_zpow_right₀ (by norm_num) (by omega)
      _ ≤ y.exact := zpow_le_exact (by omega)
  · have hunits : x.significand < y.significand := by omega
    rw [exact_eq_significand, exact_eq_significand, heq]
    exact mul_lt_mul_of_pos_right (by exact_mod_cast hunits) (two_zpow_pos _)
  · omega

theorem magnitude_eq_of_exact (h : x.exact = y.exact) : x.magnitude = y.magnitude := by
  rcases lt_trichotomy x.magnitude y.magnitude with hlt | heq | hgt
  · exact absurd h (exact_lt_exact hlt).ne
  · exact heq
  · exact absurd h (exact_lt_exact hgt).ne'

theorem exact_largest : largest.exact = (2 ^ 53 - 1) * 2 ^ (971 : ℤ) := by
  have hunit : largest.unitExponent = 971 := by decide
  have hunits : largest.significand = 2 ^ 53 - 1 := by decide
  rw [exact_eq_significand, hunit, hunits]
  norm_num

end Magnitudes

section Values

theorem abs_value (x : Binary64) : |x.value| = x.exact := by
  unfold value Json.signed
  split
  · rw [abs_neg, abs_of_nonneg x.exact_nonneg]
  · exact abs_of_nonneg x.exact_nonneg

theorem eq_of_value (hsign : x.negative = y.negative) (h : x.value = y.value) : x = y := by
  have hexact : x.exact = y.exact := by rw [← abs_value, h, abs_value]
  have hmagnitude := magnitude_eq_of_exact hexact
  cases x
  cases y
  cases hsign
  cases hmagnitude
  rfl

theorem abs_sub_exact_le (x y : Binary64) : |x.exact - y.exact| ≤ |x.value - y.value| := by
  rw [← abs_value x, ← abs_value y]
  exact abs_abs_sub_abs_le x.value y.value

/-- Two different numbers lie apart by a share of either, in all exponents. -/
theorem exact_le_mul_abs_sub (h : x.value ≠ y.value) :
    x.exact ≤ 2 ^ 53 * |x.value - y.value| := by
  by_cases hexact : x.exact = y.exact
  · -- The two differ in their signs alone.
    have hopposite : x.value = -y.value := by
      rw [← abs_value x, ← abs_value y] at hexact
      exact (abs_eq_abs.1 hexact).resolve_left h
    have hdist : |x.value - y.value| = 2 * x.exact := by
      rw [hexact, hopposite, ← abs_value y, ← abs_two (α := ℚ), ← abs_mul, ← abs_neg]
      congr 1
      ring
    rw [hdist]
    linarith [x.exact_nonneg]
  · have hspace := Rounding.le_mul_abs_sub 2 53 (by decide) x.significand_lt y.significand_lt
      (e := x.unitExponent) (f := y.unitExponent) ?_ ?_
    · push_cast at hspace
      rw [← exact_eq_significand, ← exact_eq_significand] at hspace
      exact hspace.trans (mul_le_mul_of_nonneg_left (abs_sub_exact_le x y) (by positivity))
    · intro hunit
      have hfull := leastNormal_le_significand (y.unitExponent_ge.trans_lt hunit)
      unfold leastNormal at hfull
      omega
    · push_cast
      rwa [← exact_eq_significand, ← exact_eq_significand]

end Values

section Grid

/-- How many units are nearest to an exact number, and which unit is taken: it leaves 53 bits, but is
never finer than the least subnormal number. -/
structure OnGrid (r : ℚ) (unit : ℤ) (n : ℕ) : Prop where
  finest : -1074 ≤ unit
  near : |r / 2 ^ unit - n| ≤ 1 / 2
  even : |r / 2 ^ unit - n| = 1 / 2 → Even n
  below : r < 2 ^ (unit + 53)
  full : -1074 < unit → 2 ^ (unit + 52) ≤ r

variable {q r : ℚ} {unit : ℤ} {n : ℕ}

theorem isLog_log2 : Rounding.IsLog 2 Nat.log2 where
  le _ hn := Nat.log2_self_le hn.ne'
  lt _ := Nat.lt_log2_self

theorem onGrid_zero : OnGrid 0 (-1074) 0 where
  finest := le_rfl
  near := by norm_num
  even := by norm_num
  below := two_zpow_pos _
  full h := absurd h (lt_irrefl _)

theorem nearestMagnitude_onGrid (num : ℕ) {den : ℕ} (hd : 0 < den) :
    ∃ unit n, nearestMagnitude num den = (unit + 1074).toNat * leastNormal + n ∧
      OnGrid (num / den) unit n := by
  by_cases hnum : num = 0
  · refine ⟨-1074, 0, ?_, ?_⟩
    · rw [nearestMagnitude, if_pos hnum]
      rfl
    · rw [hnum, Nat.cast_zero, zero_div]
      exact onGrid_zero
  · have hle := Rounding.zpow_leadingExponent_le isLog_log2 (by decide) (Nat.pos_of_ne_zero hnum) hd
    have hlt := Rounding.lt_zpow_leadingExponent isLog_log2 (by decide) num hd
    have hunits := Rounding.abs_sub_unitsNearest_le 2 num (by decide) hd
    simp only [Nat.cast_ofNat] at hle hlt hunits
    refine ⟨_, _, if_neg hnum, ?_⟩
    split
    case isTrue hfine =>
      obtain ⟨hnear, heven⟩ := hunits (-1074)
      refine ⟨le_rfl, hnear, heven, ?_, fun h => absurd h (lt_irrefl _)⟩
      exact hlt.trans_le (zpow_le_zpow_right₀ (by norm_num) (by omega))
    case isFalse hfine =>
      obtain ⟨hnear, heven⟩ := hunits (Rounding.leadingExponent 2 Nat.log2 num den - 52)
      refine ⟨by omega, hnear, heven, ?_, fun _ => ?_⟩
      · refine hlt.trans_le (le_of_eq ?_)
        congr 1
        omega
      · rwa [sub_add_cancel]

theorem OnGrid.le (h : OnGrid r unit n) : n ≤ 2 * leastNormal := by
  apply Rounding.units_le (two_zpow_pos unit) h.near
  have hgreatest : ((2 * leastNormal : ℕ) : ℚ) = 2 ^ 53 := by norm_num [leastNormal]
  rw [hgreatest, two_pow_mul_zpow]
  exact h.below.le

theorem OnGrid.leastNormal_le (h : OnGrid r unit n) (hunit : -1074 < unit) : leastNormal ≤ n := by
  apply Rounding.le_units (two_zpow_pos unit) h.near
  rw [least_units]
  exact h.full hunit

/-- Nothing is nearer than the number of units, and only an even one is as near as another. -/
theorem OnGrid.nearest (h : OnGrid r unit n) (z : Binary64) :
    |r - n * 2 ^ unit| ≤ |r - z.exact| ∧
      (|r - z.exact| = |r - n * 2 ^ unit| → z.exact = n * 2 ^ unit ∨ Even n) := by
  rcases Int.lt_or_le z.unitExponent unit with hfiner | hcoarser
  · -- A finer unit belongs to numbers below all those that the number is among.
    have hunit : -1074 < unit := z.unitExponent_ge.trans_lt hfiner
    have hbelow : z.exact < leastNormal * 2 ^ unit := by
      rw [least_units]
      exact z.exact_lt.trans_le (zpow_le_zpow_right₀ (by norm_num) (by omega))
    have hlt := Rounding.abs_sub_units_lt (two_zpow_pos unit) h.near
      ((least_units unit).trans_le (h.full hunit)) hbelow
    exact ⟨hlt.le, fun heq => absurd heq hlt.ne'⟩
  · obtain ⟨j, hj⟩ := Int.le.dest hcoarser
    have hmultiple : z.exact = (z.significand * 2 ^ j : ℕ) * 2 ^ unit := by
      rw [exact_eq_significand, ← hj]
      exact Rounding.mul_zpow_add two_ne_zero z.significand j unit
    rw [hmultiple]
    obtain ⟨hnear, htie⟩ :=
      Rounding.abs_sub_units_le (two_zpow_pos unit) h.near (z.significand * 2 ^ j)
    refine ⟨hnear, fun heq => ?_⟩
    rcases htie heq with hsame | hhalf
    · exact .inl (by rw [hsame])
    · exact .inr (h.even hhalf)

/-- What does not exceed the largest finite number is not rounded beyond it. -/
theorem OnGrid.lt_infinity (h : OnGrid r unit n) (hr : r ≤ largest.exact) :
    (unit + 1074).toNat * leastNormal + n < infinity := by
  have hfinest := h.finest
  have hle := h.le
  have hunit : unit ≤ 971 := by
    by_contra hgreat
    have hbeyond : largest.exact < r := by
      apply largest.exact_lt.trans_le
      apply le_trans _ (h.full (by omega))
      apply zpow_le_zpow_right₀ (by norm_num)
      have hunit : largest.unitExponent = 971 := by decide
      omega
    exact absurd hr (not_le.2 hbeyond)
  rcases Int.lt_or_eq_of_le hunit with hlt | rfl
  · unfold infinity leastNormal at *
    omega
  · have hn : n ≤ 2 ^ 53 - 1 := by
      apply Rounding.units_le (two_zpow_pos 971) h.near
      have hcast : ((2 ^ 53 - 1 : ℕ) : ℚ) = 2 ^ 53 - 1 := by norm_num
      rw [hcast, ← exact_largest]
      exact hr
    unfold infinity leastNormal
    omega

theorem OnGrid.eq_zero (h : OnGrid 0 unit n) : n = 0 := by
  apply Nat.le_zero.1
  apply Rounding.units_le (two_zpow_pos unit) h.near
  rw [Nat.cast_zero, zero_mul]

theorem abs_signed (negative : Bool) (hr : 0 ≤ r) : |Json.signed negative r| = r := by
  cases negative with
  | true => exact (abs_neg r).trans (abs_of_nonneg hr)
  | false => exact abs_of_nonneg hr

theorem abs_signed_sub (negative : Bool) (a b : ℚ) :
    |Json.signed negative a - Json.signed negative b| = |a - b| := by
  cases negative with
  | true =>
      change |-a - -b| = |a - b|
      rw [neg_sub_neg, abs_sub_comm]
  | false => rfl

theorem negative_ofRatio (negative : Bool) (num den : ℕ) :
    (ofRatio negative num den).negative = negative := by
  unfold ofRatio ofMagnitude
  split <;> rfl

/-- What a quotient within the finite numbers is rounded to. -/
theorem ofRatio_onGrid (negative : Bool) (num : ℕ) {den : ℕ} (hd : 0 < den)
    (hle : (num / den : ℚ) ≤ largest.exact) :
    ∃ unit n, OnGrid (num / den) unit n ∧ (ofRatio negative num den).isFinite = true ∧
      (ofRatio negative num den).magnitude = (unit + 1074).toNat * leastNormal + n ∧
      (ofRatio negative num den).exact = n * 2 ^ unit := by
  obtain ⟨unit, n, hmagnitude, hgrid⟩ := nearestMagnitude_onGrid num hd
  have hfinite := hgrid.lt_infinity hle
  rw [← hmagnitude] at hfinite
  have hrounded : ofRatio negative num den =
      ⟨negative, nearestMagnitude num den, hfinite.trans (by decide)⟩ := dif_pos hfinite
  have hsame : (ofRatio negative num den).magnitude = (unit + 1074).toNat * leastNormal + n := by
    rw [hrounded]
    exact hmagnitude
  refine ⟨unit, n, hgrid, ?_, hsame, ?_⟩
  · rw [hrounded]
    exact isFinite_iff.2 hfinite
  · exact exact_eq_of_magnitude hgrid.finest hgrid.le hgrid.leastNormal_le hsame

theorem abs_sub_value_ofRatio (negative : Bool) (num den : ℕ) (r : ℚ) :
    |Json.signed negative r - (ofRatio negative num den).value| =
      |r - (ofRatio negative num den).exact| := by
  rw [value, negative_ofRatio, abs_signed_sub]

theorem abs_sub_exact_le_signed (negative : Bool) (hr : 0 ≤ r) (z : Binary64) :
    |r - z.exact| ≤ |Json.signed negative r - z.value| := by
  have hdiff := abs_abs_sub_abs_le (Json.signed negative r) z.value
  rwa [abs_signed negative hr, abs_value] at hdiff

/-- Where another number is as near as the number of units, the latter is even. -/
theorem OnGrid.even_of_tie {z : Binary64} {negative : Bool} (h : OnGrid r unit n) (hr : 0 ≤ r)
    (hexact : y.exact = n * 2 ^ unit)
    (hdist : |Json.signed negative r - y.value| = |r - n * 2 ^ unit|)
    (htie : |Json.signed negative r - z.value| = |Json.signed negative r - y.value|)
    (hne : z.value ≠ y.value) : Even n := by
  have hback := (abs_sub_exact_le_signed negative hr z).trans_eq (htie.trans hdist)
  have hequal := le_antisymm hback (h.nearest z).1
  rcases (h.nearest z).2 hequal with hsame | heven
  · -- Two numbers of one magnitude that differ are equally near to zero alone.
    have hopposite : z.value = -y.value := by
      rw [← hexact, ← abs_value, ← abs_value] at hsame
      exact (abs_eq_abs.1 hsame).resolve_left hne
    rw [hopposite, sub_neg_eq_add] at htie
    rcases abs_eq_abs.1 htie with hzero | hzero
    · exact absurd (hopposite.trans (by linarith)) hne
    · have hr0 : r = 0 := by
        rw [← abs_signed negative hr, abs_eq_zero]
        linarith
      rw [hr0] at h
      rw [h.eq_zero]
      exact Even.zero
  · exact heven

/-- The number that a quotient is rounded to is the nearest one. -/
theorem isNearest_ofRatio (negative : Bool) (num : ℕ) {den : ℕ} (hd : 0 < den)
    (hle : (num / den : ℚ) ≤ largest.exact) :
    IsNearest (Json.signed negative (num / den)) (ofRatio negative num den) := by
  obtain ⟨unit, n, hgrid, hfinite, hmagnitude, hexact⟩ := ofRatio_onGrid negative num hd hle
  have hdist := abs_sub_value_ofRatio negative num den (num / den)
  have hr : (0 : ℚ) ≤ num / den := by positivity
  generalize (num / den : ℚ) = r at *
  rw [hexact] at hdist
  refine ⟨hfinite, ?_, ?_⟩
  · intro z _
    rw [hdist]
    exact (hgrid.nearest z).1.trans (abs_sub_exact_le_signed negative hr z)
  · intro z _ htie hne
    have heven := hgrid.even_of_tie hr hexact hdist htie hne
    rw [hmagnitude]
    apply Even.add _ heven
    exact Even.mul_left (by decide) _

theorem exists_signed_quotient (q : ℚ) :
    ∃ (negative : Bool) (num den : ℕ), 0 < den ∧ q = Json.signed negative (num / den : ℚ) := by
  have hquot : |q| = (q.num.natAbs : ℚ) / q.den := by
    conv_lhs => rw [← Rat.num_div_den q]
    rw [abs_div, Nat.abs_cast, Nat.cast_natAbs, Int.cast_abs]
  rcases abs_choice q with hsame | hopposite
  · exact ⟨false, q.num.natAbs, q.den, q.den_pos, hsame.symm.trans hquot⟩
  · refine ⟨true, q.num.natAbs, q.den, q.den_pos, ?_⟩
    rw [← hquot, hopposite]
    exact (neg_neg q).symm

theorem exists_isNearest (h : |q| ≤ largest.exact) : ∃ y, IsNearest q y := by
  obtain ⟨negative, num, den, hd, rfl⟩ := exists_signed_quotient q
  rw [abs_signed negative (by positivity)] at h
  exact ⟨_, isNearest_ofRatio negative num hd h⟩

/-- What a nearest number differs by is a small share, unless the units are too coarse for that. -/
theorem IsNearest.abs_sub_le (h : IsNearest q y) (hlow : 2 ^ (-1023 : ℤ) ≤ |q|)
    (hhigh : |q| ≤ largest.exact) : 2 ^ 52 * |q - y.value| ≤ |q| := by
  obtain ⟨negative, num, den, hd, rfl⟩ := exists_signed_quotient q
  rw [abs_signed negative (by positivity)] at hlow hhigh ⊢
  obtain ⟨unit, n, hgrid, hfinite, -, hexact⟩ := ofRatio_onGrid negative num hd hhigh
  have hnear := h.nearest _ hfinite
  rw [abs_sub_value_ofRatio, hexact] at hnear
  generalize (num / den : ℚ) = r at *
  have hunit := two_zpow_pos unit
  have hhalf : |r - n * 2 ^ unit| ≤ 1 / 2 * 2 ^ unit := by
    rw [Rounding.abs_sub_units hunit]
    exact mul_le_mul_of_nonneg_right hgrid.near hunit.le
  have hshare : 2 ^ 51 * 2 ^ unit ≤ r := by
    rw [two_pow_mul_zpow]
    rcases Int.lt_or_eq_of_le hgrid.finest with hgreater | heq
    · apply le_trans _ (hgrid.full hgreater)
      exact zpow_le_zpow_right₀ (by norm_num) (by omega)
    · rw [← heq]
      exact hlow
  linarith

end Grid

end JsonWriter.Binary64
