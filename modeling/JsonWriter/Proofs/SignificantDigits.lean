import JsonWriter.Proofs.Json.Grammar
import JsonWriter.Proofs.Rounding

/-! Decimals with a given number of significant digits, and which of them is nearest to a number. -/
namespace JsonWriter

namespace Rounding

/-- Half a unit is all that rounding takes away or adds, and exactly half of one leads to an even
number of units. -/
theorem abs_sub_divNearest_le (num : Nat) {den : Nat} (hd : 0 < den) :
    |(num / den : ℚ) - divNearest num den| ≤ 1 / 2 ∧
      (|(num / den : ℚ) - divNearest num den| = 1 / 2 → Even (divNearest num den)) := by
  have hd' : (0 : ℚ) < den := Nat.cast_pos.2 hd
  have hscaled : (num / den : ℚ) - divNearest num den =
      (num - divNearest num den * den) / den := by
    rw [sub_div, mul_div_cancel_right₀ _ hd'.ne']
  have habove : (2 * (divNearest num den * den) : ℚ) ≤ 2 * num + den := by
    exact_mod_cast two_mul_divNearest_mul_le num den
  have hbelow : (2 * num : ℚ) ≤ 2 * (divNearest num den * den) + den := by
    exact_mod_cast two_mul_le_divNearest_mul num hd
  rw [hscaled, abs_div, abs_of_pos hd', div_le_iff₀ hd', div_eq_iff hd'.ne']
  refine ⟨abs_le.2 ⟨by linarith, by linarith⟩, fun htie => ?_⟩
  rw [Nat.even_iff]
  apply divNearest_of_tie hd
  rcases eq_or_eq_neg_of_abs_eq htie with hhalf | hhalf
  · left
    have hcast : (2 * num : ℚ) = 2 * (divNearest num den * den) + den := by linarith
    exact_mod_cast hcast
  · right
    have hcast : (2 * (divNearest num den * den) : ℚ) = 2 * num + den := by linarith
    exact_mod_cast hcast

theorem one_le_abs_sub {m n : ℕ} (h : m ≠ n) : (1 : ℚ) ≤ |(m : ℚ) - n| := by
  have hint : (1 : ℤ) ≤ |(m : ℤ) - n| := Int.one_le_abs (by omega)
  exact_mod_cast hint

/-- Of all numbers of units the one that is within half a unit is nearest. -/
theorem abs_sub_le_of_le_half {r : ℚ} {n : Nat} (h : |r - n| ≤ 1 / 2) (k : Nat) :
    |r - n| ≤ |r - k| ∧ (|r - k| = |r - n| → k = n ∨ |r - n| = 1 / 2) := by
  by_cases hk : k = n
  · subst hk
    exact ⟨le_rfl, fun _ => .inl rfl⟩
  · have hstep := one_le_abs_sub hk
    have htriangle : |(k : ℚ) - n| ≤ |r - k| + |r - n| := by
      rw [abs_sub_comm r]
      exact abs_sub_le (k : ℚ) r n
    refine ⟨by linarith, fun heq => .inr ?_⟩
    apply le_antisymm h
    linarith

section Units

variable {q u z : ℚ} {n k : ℕ}

theorem abs_sub_units (hu : 0 < u) (q : ℚ) (k : ℕ) : |q - k * u| = |q / u - k| * u := by
  rw [← abs_of_pos hu, ← abs_mul, abs_of_pos hu, sub_mul, div_mul_cancel₀ _ hu.ne']

theorem abs_sub_units_le (hu : 0 < u) (hn : |q / u - n| ≤ 1 / 2) (k : ℕ) :
    |q - n * u| ≤ |q - k * u| ∧
      (|q - k * u| = |q - n * u| → k = n ∨ |q / u - n| = 1 / 2) := by
  obtain ⟨hnear, htie⟩ := abs_sub_le_of_le_half hn k
  rw [abs_sub_units hu, abs_sub_units hu]
  refine ⟨mul_le_mul_of_nonneg_right hnear hu.le, fun heq => ?_⟩
  exact htie (mul_right_cancel₀ hu.ne' heq)

theorem abs_sub_units_lt (hu : 0 < u) (hn : |q / u - n| ≤ 1 / 2) (hk : k * u ≤ q)
    (hz : z < k * u) : |q - n * u| < |q - z| := by
  have hleast := (abs_sub_units_le hu hn k).1
  rw [abs_of_nonneg (sub_nonneg.2 hk)] at hleast
  rw [abs_of_pos (a := q - z) (by linarith)]
  linarith

theorem le_units (hu : 0 < u) (hn : |q / u - n| ≤ 1 / 2) (hk : k * u ≤ q) : k ≤ n := by
  have hquot : (k : ℚ) ≤ q / u := (le_div_iff₀ hu).2 hk
  have hnear := (abs_le.1 hn).2
  have hcast : (k : ℚ) < n + 1 := by linarith
  exact Nat.lt_add_one_iff.1 (by exact_mod_cast hcast)

theorem units_le (hu : 0 < u) (hn : |q / u - n| ≤ 1 / 2) (hk : q ≤ k * u) : n ≤ k := by
  have hquot : q / u ≤ k := (div_le_iff₀ hu).2 hk
  have hnear := (abs_le.1 hn).1
  have hcast : (n : ℚ) < k + 1 := by linarith
  exact Nat.lt_add_one_iff.1 (by exact_mod_cast hcast)

end Units

theorem scaled_div (base num den : Nat) (hb : 0 < base) (e : Int) :
    ((num * Nat.pow base (-e).toNat : Nat) : ℚ) / (den * Nat.pow base e.toNat : Nat) =
      num / den / (base : ℚ) ^ e := by
  have hb' : (base : ℚ) ≠ 0 := Nat.cast_ne_zero.2 hb.ne'
  simp only [Nat.pow_eq]
  push_cast
  rcases Int.le_total 0 e with he | he
  · obtain ⟨n, rfl⟩ := Int.eq_ofNat_of_zero_le he
    have hn : (-(n : Int)).toNat = 0 := by omega
    rw [hn, Int.toNat_natCast, pow_zero, mul_one, zpow_natCast, div_div]
  · obtain ⟨n, hn⟩ := Int.eq_ofNat_of_zero_le (Int.neg_nonneg_of_nonpos he)
    obtain rfl : e = -(n : Int) := by omega
    have h0 : (-(n : Int)).toNat = 0 := by omega
    rw [h0, neg_neg, Int.toNat_natCast, pow_zero, mul_one, zpow_neg, zpow_natCast, div_inv_eq_mul]
    ring

/-- The nearest number of units is within half a unit, and if it is half a unit off it is even. -/
theorem abs_sub_unitsNearest_le (base num : Nat) {den : Nat} (hb : 0 < base) (hd : 0 < den)
    (e : Int) :
    |(num / den / base ^ e : ℚ) - unitsNearest base e num den| ≤ 1 / 2 ∧
      (|(num / den / base ^ e : ℚ) - unitsNearest base e num den| = 1 / 2 →
        Even (unitsNearest base e num den)) := by
  have hunit : 0 < den * Nat.pow base e.toNat := Nat.mul_pos hd (Nat.pow_pos hb)
  rw [← scaled_div base num den hb]
  exact abs_sub_divNearest_le (num * Nat.pow base (-e).toNat) hunit

theorem lt_zpow_leadingExponent {base : Nat} {log : Nat → Nat} (h : IsLog base log)
    (hb : 0 < base) (num : Nat) {den : Nat} (hd : 0 < den) :
    (num / den : ℚ) < (base : ℚ) ^ (leadingExponent base log num den + 1) := by
  have hb' : (0 : ℚ) < base := Nat.cast_pos.2 hb
  have hd' : (0 : ℚ) < den := Nat.cast_pos.2 hd
  unfold leadingExponent
  dsimp only
  split
  case isTrue =>
    have hnum : (num : ℚ) < base ^ (log num + 1) := by exact_mod_cast h.lt num
    have hden : (base : ℚ) ^ log den ≤ den := by exact_mod_cast h.le den hd
    have he : (log num : Int) - log den + 1 = ((log num + 1 : Nat) : Int) - log den := by
      push_cast
      ring
    rw [he, zpow_sub₀ hb'.ne', zpow_natCast, zpow_natCast]
    exact div_lt_div₀ hnum hden (pow_nonneg hb'.le _) (pow_pos hb' _)
  case isFalse hlt =>
    rw [sub_add_cancel, ← not_le]
    exact fun hle => hlt ((scaled_le_iff num hb hd _).2 hle)

end Rounding

namespace Decimal

/-- A decimal with so many significant digits: the first is not zero, and stands at `10 ^ X`. -/
def HasDigits (digits : Nat) (d : ℚ) (X : ℤ) : Prop :=
  ∃ m : ℕ, 10 ^ (digits - 1) ≤ m ∧ m < 10 ^ digits ∧ d = m * 10 ^ (X - (digits - 1 : ℕ))

/-- The decimal with so many significant digits that is nearest to a number. Of two that are equally
near it is the even one, counted in units of the last place of the two. -/
structure RoundsTo (digits : Nat) (q d : ℚ) (X : ℤ) : Prop where
  hasDigits : HasDigits digits d X
  nearest : ∀ d' X', HasDigits digits d' X' → |q - d| ≤ |q - d'|
  even : ∀ d' X', HasDigits digits d' X' → |q - d'| = |q - d| → d' ≠ d →
    ∃ n : ℕ, Even n ∧ d = n * 10 ^ (min X X' - (digits - 1 : ℕ))

variable {digits : Nat} {q d d' : ℚ} {X X' lead : ℤ}

theorem ten_zpow_pos (e : ℤ) : (0 : ℚ) < 10 ^ e := zpow_pos (by norm_num) e

theorem pow_mul_unit (k : Nat) (e : ℤ) : (10 : ℚ) ^ k * 10 ^ e = 10 ^ (e + k) := by
  rw [zpow_add₀ (by norm_num), zpow_natCast, mul_comm]

theorem least_units (digits : ℕ) (lead : ℤ) :
    (10 : ℚ) ^ (digits - 1) * 10 ^ (lead - (digits - 1 : ℕ)) = 10 ^ lead := by
  rw [pow_mul_unit, sub_add_cancel]

theorem greatest_units (hdigits : 1 ≤ digits) (lead : ℤ) :
    (10 : ℚ) ^ digits * 10 ^ (lead - (digits - 1 : ℕ)) = 10 ^ (lead + 1) := by
  rw [pow_mul_unit]
  congr 1
  omega

theorem HasDigits.le (h : HasDigits digits d X) : 10 ^ X ≤ d := by
  obtain ⟨m, hm, -, rfl⟩ := h
  calc
    (10 : ℚ) ^ X = 10 ^ (digits - 1) * 10 ^ (X - (digits - 1 : ℕ)) := (least_units digits X).symm
    _ ≤ m * 10 ^ (X - (digits - 1 : ℕ)) := by
      apply mul_le_mul_of_nonneg_right _ (ten_zpow_pos _).le
      exact_mod_cast hm

theorem HasDigits.lt (hdigits : 1 ≤ digits) (h : HasDigits digits d X) : d < 10 ^ (X + 1) := by
  obtain ⟨m, -, hm, rfl⟩ := h
  calc
    (m : ℚ) * 10 ^ (X - (digits - 1 : ℕ)) < 10 ^ digits * 10 ^ (X - (digits - 1 : ℕ)) := by
      apply mul_lt_mul_of_pos_right _ (ten_zpow_pos _)
      exact_mod_cast hm
    _ = 10 ^ (X + 1) := greatest_units hdigits X

theorem HasDigits.le_of_le (hdigits : 1 ≤ digits) (h : HasDigits digits d X)
    (h' : HasDigits digits d' X') (hle : d ≤ d') : X ≤ X' := by
  have hlt : (10 : ℚ) ^ X < 10 ^ (X' + 1) := (h.le.trans hle).trans_lt (h'.lt hdigits)
  exact Int.lt_add_one_iff.1 ((zpow_lt_zpow_iff_right₀ (by norm_num)).1 hlt)

theorem HasDigits.unique (hdigits : 1 ≤ digits) (h : HasDigits digits d X)
    (h' : HasDigits digits d X') : X = X' :=
  le_antisymm (h.le_of_le hdigits h' le_rfl) (h'.le_of_le hdigits h le_rfl)

/-- Digits that begin further to the left are a multiple of the same unit. -/
theorem HasDigits.multiple (h : HasDigits digits d X) (hle : lead ≤ X) :
    ∃ k : ℕ, d = k * 10 ^ (lead - (digits - 1 : ℕ)) := by
  obtain ⟨m, -, -, rfl⟩ := h
  obtain ⟨k, rfl⟩ := Int.le.dest hle
  refine ⟨m * 10 ^ k, ?_⟩
  push_cast
  rw [mul_assoc, pow_mul_unit]
  congr 2
  ring

/-- One unit more than the greatest number of units makes a first digit further to the left. -/
theorem hasDigits_of_le (hdigits : 1 ≤ digits) {n : ℕ} (hle : 10 ^ (digits - 1) ≤ n)
    (hn : n ≤ 10 ^ digits) (lead : ℤ) :
    ∃ X, lead ≤ X ∧ HasDigits digits (n * 10 ^ (lead - (digits - 1 : ℕ))) X := by
  rcases Nat.lt_or_eq_of_le hn with hlt | rfl
  · exact ⟨lead, le_rfl, n, hle, hlt, rfl⟩
  · refine ⟨lead + 1, by omega, 10 ^ (digits - 1), le_rfl, ?_, ?_⟩
    · exact Nat.pow_lt_pow_right (by decide) (by omega)
    · push_cast
      rw [pow_mul_unit, pow_mul_unit]
      congr 1
      omega

/-- A number that has so many digits is nearest to itself. -/
theorem HasDigits.roundsTo (h : HasDigits digits q X) : RoundsTo digits q q X where
  hasDigits := h
  nearest d' X' _ := by
    rw [sub_self, abs_zero]
    exact abs_nonneg _
  even d' X' _ heq hne := by
    rw [sub_self, abs_zero, abs_eq_zero, sub_eq_zero] at heq
    exact absurd heq.symm hne

section Grid

variable {n : ℕ}

/-- What is nearest to a number among the multiples of the unit in its last place is nearest to it
among all decimals with so many digits. -/
theorem grid_nearest (hle : 10 ^ lead ≤ q)
    (hn : |q / 10 ^ (lead - (digits - 1 : ℕ)) - n| ≤ 1 / 2) (hdigits : 1 ≤ digits)
    (h' : HasDigits digits d' X') :
    |q - n * 10 ^ (lead - (digits - 1 : ℕ))| ≤ |q - d'| ∧
      (|q - d'| = |q - n * 10 ^ (lead - (digits - 1 : ℕ))| → lead ≤ X' ∧
        (d' = n * 10 ^ (lead - (digits - 1 : ℕ)) ∨
          |q / 10 ^ (lead - (digits - 1 : ℕ)) - n| = 1 / 2)) := by
  have hpos := ten_zpow_pos (lead - (digits - 1 : ℕ))
  by_cases hlead : lead ≤ X'
  · obtain ⟨k, rfl⟩ := h'.multiple hlead
    obtain ⟨hnear, htie⟩ := Rounding.abs_sub_units_le hpos hn k
    refine ⟨hnear, fun heq => ⟨hlead, ?_⟩⟩
    rcases htie heq with rfl | hhalf
    · exact .inl rfl
    · exact .inr hhalf
  · -- A decimal that begins further to the right is below the least one that begins here.
    have hbelow : d' < 10 ^ lead := by
      refine (h'.lt hdigits).trans_le ?_
      exact zpow_le_zpow_right₀ (by norm_num) (by omega)
    have hleast : ((10 ^ (digits - 1) : ℕ) : ℚ) * 10 ^ (lead - (digits - 1 : ℕ)) = 10 ^ lead := by
      push_cast
      exact least_units digits lead
    rw [← hleast] at hle hbelow
    have hlt := Rounding.abs_sub_units_lt hpos hn hle hbelow
    exact ⟨hlt.le, fun heq => absurd heq hlt.ne'⟩

/-- Rounding to the unit in the last place gives the nearest decimal with so many digits. -/
theorem roundsTo_of_grid (hdigits : 1 ≤ digits) (hle : 10 ^ lead ≤ q) (hlt : q < 10 ^ (lead + 1))
    (hn : |q / 10 ^ (lead - (digits - 1 : ℕ)) - n| ≤ 1 / 2)
    (heven : |q / 10 ^ (lead - (digits - 1 : ℕ)) - n| = 1 / 2 → Even n) :
    ∃ X, RoundsTo digits q (n * 10 ^ (lead - (digits - 1 : ℕ))) X := by
  have hpos := ten_zpow_pos (lead - (digits - 1 : ℕ))
  have hn_low : 10 ^ (digits - 1) ≤ n := by
    apply Rounding.le_units hpos hn
    push_cast
    rwa [least_units]
  have hn_high : n ≤ 10 ^ digits := by
    apply Rounding.units_le hpos hn
    push_cast
    rw [greatest_units hdigits]
    exact hlt.le
  obtain ⟨X, hX, hhas⟩ := hasDigits_of_le hdigits hn_low hn_high lead
  refine ⟨X, hhas, fun d' X' h' => (grid_nearest hle hn hdigits h').1, ?_⟩
  intro d' X' h' heq hne
  obtain ⟨hX', htie⟩ := (grid_nearest hle hn hdigits h').2 heq
  have heven := heven (htie.resolve_left hne)
  by_cases hmin : min X X' = lead
  · rw [hmin]
    exact ⟨n, heven, rfl⟩
  · -- Two decimals above the number cannot be equally near.
    have hup : ∀ Y d, HasDigits digits d Y → lead < Y → q < d := by
      intro Y d hd hY
      refine hlt.trans_le (le_trans ?_ hd.le)
      exact zpow_le_zpow_right₀ (by norm_num) (by omega)
    have hq := hup X _ hhas (by omega)
    have hq' := hup X' _ h' (by omega)
    rw [abs_sub_comm, abs_of_pos (sub_pos.2 hq'), abs_sub_comm, abs_of_pos (sub_pos.2 hq)] at heq
    exact absurd (sub_left_injective heq) hne

end Grid

/-- Of two decimals that are both nearest the lower one has a neighbour that is nearer. -/
theorem RoundsTo.le (hdigits : 1 ≤ digits) (h : RoundsTo digits q d X)
    (h' : RoundsTo digits q d' X') : d' ≤ d := by
  by_contra hnot
  have hlt : d < d' := not_le.1 hnot
  have heq : |q - d| = |q - d'| :=
    le_antisymm (h.nearest d' X' h'.hasDigits) (h'.nearest d X h.hasDigits)
  have hX : X ≤ X' := h.hasDigits.le_of_le hdigits h'.hasDigits hlt.le
  obtain ⟨n, hn, hd⟩ := h.even d' X' h'.hasDigits heq.symm hlt.ne'
  obtain ⟨n', hn', hd'⟩ := h'.even d X h.hasDigits heq hlt.ne
  rw [min_eq_left hX] at hd
  rw [min_eq_right hX] at hd'
  obtain ⟨m, hm, hm', hmd⟩ := h.hasDigits
  have hpos := ten_zpow_pos (X - (digits - 1 : ℕ))
  obtain rfl : n = m := by
    have hcast := mul_right_cancel₀ hpos.ne' (hd.symm.trans hmd)
    exact_mod_cast hcast
  have hnn' : n < n' := by
    rw [hd, hd'] at hlt
    exact_mod_cast lt_of_mul_lt_mul_right hlt hpos.le
  have hstep : n + 2 ≤ n' := by
    rw [Nat.even_iff] at hn hn'
    omega
  obtain ⟨Y, -, hY⟩ := hasDigits_of_le hdigits (n := n + 1) (by omega) (by omega) X
  have hnear := h.nearest _ Y hY
  -- The number lies in the middle of the two, and so not below the neighbour of the lower one.
  have hmiddle : q - d = d' - q := by
    rcases abs_eq_abs.1 heq with hsame | hopposite
    · exact absurd (sub_right_injective hsame) hlt.ne
    · linarith
  have hunits : ((n + 2 : ℕ) : ℚ) * 10 ^ (X - (digits - 1 : ℕ)) ≤ d' := by
    rw [hd']
    exact mul_le_mul_of_nonneg_right (by exact_mod_cast hstep) hpos.le
  have hnext : ((n + 1 : ℕ) : ℚ) * 10 ^ (X - (digits - 1 : ℕ)) =
      d + 10 ^ (X - (digits - 1 : ℕ)) := by
    rw [hd]
    push_cast
    ring
  have hnext' : ((n + 2 : ℕ) : ℚ) * 10 ^ (X - (digits - 1 : ℕ)) =
      d + 2 * 10 ^ (X - (digits - 1 : ℕ)) := by
    rw [hd]
    push_cast
    ring
  rw [hnext, abs_of_nonneg (by linarith), abs_of_nonneg (by linarith)] at hnear
  linarith

theorem RoundsTo.unique (hdigits : 1 ≤ digits) (h : RoundsTo digits q d X)
    (h' : RoundsTo digits q d' X') : d = d' ∧ X = X' := by
  obtain rfl : d = d' := le_antisymm (h'.le hdigits h) (h.le hdigits h')
  exact ⟨rfl, h.hasDigits.unique hdigits h'.hasDigits⟩

theorem hasDigits_of_units (hdigits : 1 ≤ digits) {k : ℕ}
    (hle : (10 : ℚ) ^ lead ≤ k * 10 ^ (lead - (digits - 1 : ℕ)))
    (hlt : (k : ℚ) * 10 ^ (lead - (digits - 1 : ℕ)) < 10 ^ (lead + 1)) :
    HasDigits digits (k * 10 ^ (lead - (digits - 1 : ℕ))) lead := by
  have hpos := ten_zpow_pos (lead - (digits - 1 : ℕ))
  rw [← least_units digits] at hle
  rw [← greatest_units hdigits] at hlt
  refine ⟨k, ?_, ?_, rfl⟩
  · exact_mod_cast le_of_mul_le_mul_right hle hpos
  · exact_mod_cast lt_of_mul_lt_mul_right hlt hpos.le

/-- A quotient is rounded to the decimal nearest to it, if it has no digits below the finest place. -/
theorem roundsTo_ofRatio (hdigits : 1 ≤ digits) {num den : ℕ} {finest : ℤ} (hn : 0 < num)
    (hd : 0 < den) (hfinest : ∃ k : ℕ, (num / den : ℚ) = k * 10 ^ finest) :
    ∃ X, RoundsTo digits (num / den) (ofRatio digits finest num den).toRat X := by
  have hle := Rounding.zpow_leadingExponent_le isLog_log10 (by decide) hn hd
  have hlt := Rounding.lt_zpow_leadingExponent isLog_log10 (by decide) num hd
  have hunits := Rounding.abs_sub_unitsNearest_le 10 num (by decide) hd
  simp only [Nat.cast_ofNat] at hle hlt hunits
  unfold ofRatio toRat
  dsimp only
  split
  case isFalse => exact roundsTo_of_grid hdigits hle hlt (hunits _).1 (hunits _).2
  case isTrue hfine =>
    -- The finest place is below the last digit, so that nothing is rounded.
    obtain ⟨k, hk⟩ := hfinest
    have hexact : Rounding.unitsNearest 10 finest num den = k := by
      have hnear := (Rounding.abs_sub_le_of_le_half (hunits finest).1 k).1
      rw [hk, mul_div_cancel_right₀ _ (ten_zpow_pos finest).ne', sub_self, abs_zero, abs_nonpos_iff,
        sub_eq_zero] at hnear
      exact_mod_cast hnear.symm
    rw [hexact, ← hk]
    obtain ⟨j, hj⟩ := Int.le.dest hfine.le
    have hmultiple : (num / den : ℚ) = (k * 10 ^ j : ℕ) *
        10 ^ (Rounding.leadingExponent 10 log10 num den - (digits - 1 : ℕ)) := by
      push_cast
      rw [hk, mul_assoc, pow_mul_unit, hj]
    rw [hmultiple] at hle hlt ⊢
    exact ⟨_, (hasDigits_of_units hdigits hle hlt).roundsTo⟩

theorem HasDigits.eq_leading {d : Decimal} (hdigits : 1 ≤ digits) (h : HasDigits digits d.toRat X)
    (hd : d.coefficient ≠ 0) : X = d.leading := by
  have hlog := isLog_log10
  have hlow : (10 : ℚ) ^ d.leading ≤ d.toRat := by
    have hcast : (10 : ℚ) ^ log10 d.coefficient ≤ d.coefficient := by
      exact_mod_cast hlog.le _ (Nat.pos_of_ne_zero hd)
    rw [leading, add_comm, ← pow_mul_unit, toRat]
    exact mul_le_mul_of_nonneg_right hcast (ten_zpow_pos _).le
  have hhigh : d.toRat < 10 ^ (d.leading + 1) := by
    have hcast : (d.coefficient : ℚ) < 10 ^ (log10 d.coefficient + 1) := by
      exact_mod_cast hlog.lt d.coefficient
    have hexp : d.leading + 1 = d.exponent + (log10 d.coefficient + 1 : ℕ) := by
      unfold leading
      push_cast
      ring
    rw [hexp, ← pow_mul_unit, toRat]
    exact mul_lt_mul_of_pos_right hcast (ten_zpow_pos _)
  have hbelow := (zpow_lt_zpow_iff_right₀ (by norm_num)).1 (h.le.trans_lt hhigh)
  have habove := (zpow_lt_zpow_iff_right₀ (by norm_num)).1 (hlow.trans_lt (h.lt hdigits))
  omega

end Decimal
end JsonWriter
