import JsonWriter.Decimal
import Mathlib

/-! What rounding keeps of a quotient, in exact numbers. -/
namespace JsonWriter

namespace Rounding

theorem scaled_le_iff {base den : Nat} (num : Nat) (hb : 0 < base) (hd : 0 < den) (e : Int) :
    den * Nat.pow base e.toNat ≤ num * Nat.pow base (-e).toNat ↔ (base : ℚ) ^ e ≤ num / den := by
  have hd' : (0 : ℚ) < den := Nat.cast_pos.2 hd
  have hb' : (0 : ℚ) < base := Nat.cast_pos.2 hb
  rw [le_div_iff₀ hd']
  simp only [Nat.pow_eq]
  rcases Int.le_total 0 e with he | he
  · obtain ⟨n, rfl⟩ := Int.eq_ofNat_of_zero_le he
    have hn : (-(n : Int)).toNat = 0 := by omega
    rw [Int.toNat_natCast, hn, pow_zero, mul_one, zpow_natCast, mul_comm]
    exact_mod_cast Iff.rfl
  · obtain ⟨n, hn⟩ := Int.eq_ofNat_of_zero_le (Int.neg_nonneg_of_nonpos he)
    obtain rfl : e = -(n : Int) := by omega
    have h0 : (-(n : Int)).toNat = 0 := by omega
    rw [h0, neg_neg, Int.toNat_natCast, pow_zero, mul_one, zpow_neg, zpow_natCast,
      inv_mul_le_iff₀ (pow_pos hb' n), mul_comm]
    exact_mod_cast Iff.rfl

/-- A logarithm to a base, rounded down. -/
structure IsLog (base : Nat) (log : Nat → Nat) : Prop where
  le : ∀ n, 0 < n → base ^ log n ≤ n
  lt : ∀ n, n < base ^ (log n + 1)

theorem zpow_leadingExponent_le {base : Nat} {log : Nat → Nat} (h : IsLog base log)
    (hb : 0 < base) {num den : Nat} (hn : 0 < num) (hd : 0 < den) :
    (base : ℚ) ^ leadingExponent base log num den ≤ num / den := by
  unfold leadingExponent
  dsimp only
  split
  case isTrue hle => exact (scaled_le_iff num hb hd _).1 hle
  case isFalse =>
    have hb' : (0 : ℚ) < base := Nat.cast_pos.2 hb
    have hd' : (0 : ℚ) < den := Nat.cast_pos.2 hd
    have hnum : (base : ℚ) ^ log num ≤ num := by exact_mod_cast h.le num hn
    have hden : (den : ℚ) ≤ base ^ (log den + 1) := by exact_mod_cast (h.lt den).le
    have he : (log num : Int) - log den - 1 = log num - ((log den + 1 : Nat) : Int) := by
      push_cast
      ring
    rw [he, zpow_sub₀ hb'.ne', zpow_natCast, zpow_natCast]
    exact div_le_div₀ (Nat.cast_nonneg _) hnum hd' hden

theorem unitsNearest_pos {base num den : Nat} {e : Int} (hb : 0 < base) (hd : 0 < den)
    (h : (base : ℚ) ^ e ≤ num / den) : 0 < unitsNearest base e num den := by
  have hle := (scaled_le_iff num hb hd e).2 h
  have hden : 0 < den * Nat.pow base e.toNat := Nat.mul_pos hd (Nat.pow_pos hb)
  have hq : 0 < num * Nat.pow base (-e).toNat / (den * Nat.pow base e.toNat) :=
    Nat.div_pos hle hden
  unfold unitsNearest divNearest
  dsimp only
  split
  · exact hq
  · split <;> omega

end Rounding

namespace Decimal

theorem isLog_log10 : Rounding.IsLog 10 log10 := by
  refine ⟨?_, ?_⟩
  · intro n hn
    by_contra hlt
    have hlen := Nat.length_toDigits_pos (b := 10) (n := n)
    rcases Nat.eq_zero_or_pos (log10 n) with h0 | hpos
    · rw [h0, pow_zero] at hlt
      exact hlt hn
    · have := (Nat.length_toDigits_le_iff (by decide) hpos).2 (Nat.not_le.1 hlt)
      unfold log10 at this
      omega
  · intro n
    apply (Nat.length_toDigits_le_iff (by decide) (Nat.succ_pos _)).1
    unfold log10
    omega

/-- A quotient that is a multiple of its finest place keeps a digit. -/
theorem coefficient_ofRatio_pos (digits : Nat) {num den : Nat} {finest : Int} (hn : 0 < num)
    (hd : 0 < den) (h : (10 : ℚ) ^ finest ≤ num / den) :
    0 < (ofRatio digits finest num den).coefficient := by
  apply Rounding.unitsNearest_pos (by decide) hd
  have hlead := Rounding.zpow_leadingExponent_le isLog_log10 (by decide) hn hd
  split
  · exact_mod_cast h
  · refine le_trans ?_ hlead
    exact zpow_le_zpow_right₀ (by norm_num) (by omega)

end Decimal
end JsonWriter
