import JsonWriter.Proofs.Binary64.Nearest
import JsonWriter.Proofs.Emission.Document

/-! Reading the text of a floating-point number back: which numbers are nearest to what the text
denotes. -/
namespace JsonWriter

namespace Binary64

open Json (Number signed)

variable {x y : Binary64} {q : ℚ} {precision : ℕ}

theorem toList_toJson (hx : x.isFinite = true) (precision : ℕ) : (x.toJson precision).toList =
    if x.negative then '-' :: x.magnitudeText precision else x.magnitudeText precision := by
  unfold toJson
  rw [if_pos hx, String.toList_ofList]

theorem number_toJson (hx : x.isFinite = true) (precision : ℕ) :
    Number (x.toJson precision).toList (x.printed precision) := by
  rw [toList_toJson hx]
  exact (Json.magnitude_magnitudeText precision x).signed x.negative

theorem head?_toJson (hx : x.isFinite = true) (precision : ℕ) :
    (x.toJson precision).toList.head? = some '-' ↔ x.negative = true := by
  obtain ⟨c, rest, hbody, hdigit⟩ := (Json.magnitude_magnitudeText precision x).head
  rw [toList_toJson hx, hbody]
  cases x.negative with
  | true => exact iff_of_true rfl rfl
  | false =>
      refine iff_of_false ?_ nofun
      rintro ⟨⟩
      cases hdigit

/-- What is printed differs from a number by a small share of it. -/
theorem abs_sub_printed_le (x : Binary64) (hprecision : 1 ≤ precision) :
    2 * 10 ^ (precision - 1) * |x.value - x.printed precision| ≤ x.exact := by
  unfold value printed
  rw [abs_signed_sub]
  cases h : x.isZero with
  | true =>
      rw [exact_eq_zero h, if_pos rfl, sub_zero, abs_zero, mul_zero]
  | false =>
      have hrounds := roundsTo_rounded precision h
      rw [max_eq_left hprecision] at hrounds
      exact hrounds.abs_sub_le hprecision (exact_pos h)

section Seventeen

/-- Seventeen digits are nearer to the number they are printed for than to any other. -/
theorem abs_sub_lt_of_near (hq : 2 * 10 ^ 16 * |x.value - q| ≤ x.exact)
    (hne : y.value ≠ x.value) : |q - x.value| < |q - y.value| := by
  have hspace := exact_le_mul_abs_sub hne.symm
  have hapart : 0 < |x.value - y.value| := abs_pos.2 (sub_ne_zero.2 hne.symm)
  have htriangle := abs_sub_le x.value q y.value
  rw [abs_sub_comm q x.value]
  linarith

theorem isNearest_of_near (hx : x.isFinite = true)
    (hq : 2 * 10 ^ 16 * |x.value - q| ≤ x.exact) : IsNearest q x where
  finite := hx
  nearest z _ := by
    by_cases hz : z.value = x.value
    · rw [hz]
    · exact (abs_sub_lt_of_near hq hz).le
  even z _ htie hne := absurd htie (abs_sub_lt_of_near hq hne).ne'

theorem IsNearest.eq_of_near (h : IsNearest q y) (hx : x.isFinite = true)
    (hq : 2 * 10 ^ 16 * |x.value - q| ≤ x.exact) (hsign : y.negative = x.negative) : y = x := by
  apply eq_of_value hsign
  by_contra hne
  exact absurd (h.nearest x hx) (not_le.2 (abs_sub_lt_of_near hq hne))

theorem gap_beyond_largest : 2 ^ 1024 - largest.exact = 2 ^ (971 : ℤ) := by
  have hbeyond : (2 : ℚ) ^ 1024 = 2 ^ 53 * 2 ^ (971 : ℤ) := (two_pow_mul_zpow 53 971).symm
  rw [exact_largest, hbeyond]
  ring

/-- The text of the largest finite number denotes none that is rounded to an infinite one. -/
theorem abs_sub_lt_of_largest (hq : 2 * 10 ^ 16 * |x.value - q| ≤ x.exact)
    (hx : x.exact = largest.exact) : |q - x.value| < (2 ^ 1024 - largest.exact) / 2 := by
  have hunit := two_zpow_pos 971
  rw [hx, exact_largest] at hq
  rw [gap_beyond_largest, abs_sub_comm]
  generalize (2 : ℚ) ^ (971 : ℤ) = unit at *
  linarith

end Seventeen

section Fifteen

theorem printed_eq (h : x.isZero = false) (precision : ℕ) :
    x.printed precision = signed x.negative (x.rounded precision).toRat := by
  unfold printed
  rw [h]
  rfl

/-- A number near to what is printed has the same digits, if they are fewer than its own. -/
theorem magnitudeText_eq_of_near (h : x.isZero = false) (hprecision : 1 ≤ precision)
    (hnear : 2 * 10 ^ precision * |y.exact - (x.rounded precision).toRat| <
      (x.rounded precision).toRat) : y.magnitudeText precision = x.magnitudeText precision := by
  have hx := roundsTo_rounded precision h
  have hy : y.isZero = false := by
    by_contra hzero
    have hpower : (1 : ℚ) ≤ 10 ^ precision := one_le_pow₀ (by norm_num)
    have hpos := hx.hasDigits.pos
    rw [exact_eq_zero (by simpa using hzero), zero_sub, abs_neg, abs_of_pos hpos] at hnear
    nlinarith
  rw [max_eq_left hprecision] at hx
  have hrounds := hx.hasDigits.roundsTo_of_near hprecision hnear
  have hrounded := roundsTo_rounded precision hy
  rw [max_eq_left hprecision] at hrounded
  rw [magnitudeText_eq_write h, magnitudeText_eq_write hy]
  apply Json.write_eq_of_toRat
  · exact coefficient_rounded_ne_zero precision hy
  · exact coefficient_rounded_ne_zero precision h
  · exact (hrounded.unique hprecision hrounds).1

theorem negative_of_near {negative : Bool} {d : ℚ} (h : |signed negative d - y.value| < d) :
    y.negative = negative := by
  have hy := y.exact_nonneg
  unfold value at h
  rw [abs_lt] at h
  cases hsign : y.negative with
  | true =>
      cases negative with
      | true => rfl
      | false =>
          rw [hsign] at h
          change _ ∧ d - -y.exact < d at h
          linarith
  | false =>
      cases negative with
      | true =>
          rw [hsign] at h
          change -d < -d - y.exact ∧ _ at h
          linarith
      | false => rfl

/-- Fifteen digits are few enough to come back from the number that they are read as. -/
theorem IsNearest.toJson_eq (h : IsNearest (x.printed precision) y) (hx : x.isFinite = true)
    (hnormal : 2 ^ (-1022 : ℤ) ≤ x.exact) (hlow : 1 ≤ precision) (hhigh : precision ≤ 15)
    (hq : |x.printed precision| ≤ largest.exact) : y.toJson precision = x.toJson precision := by
  have hzero : x.isZero = false := by
    by_contra hzero
    have hpos := two_zpow_pos (-1022)
    rw [exact_eq_zero (by simpa using hzero)] at hnormal
    exact absurd hnormal (not_le.2 hpos)
  have hd := (roundsTo_rounded precision hzero).hasDigits.pos
  have hprinted := x.abs_sub_printed_le hlow
  have habs : |x.printed precision| = (x.rounded precision).toRat := by
    rw [printed_eq hzero, abs_signed _ hd.le]
  have hhalf : 2 ^ (-1023 : ℤ) ≤ |x.printed precision| := by
    have hpower : (1 : ℚ) ≤ 10 ^ (precision - 1) := one_le_pow₀ (by norm_num)
    have hstep : (2 : ℚ) ^ (-1022 : ℤ) = 2 ^ (-1023 : ℤ) * 2 :=
      zpow_add_one₀ (by norm_num) (-1023)
    have hdrop := abs_sub_abs_le_abs_sub x.value (x.printed precision)
    have hdist := abs_nonneg (x.value - x.printed precision)
    rw [abs_value] at hdrop
    nlinarith
  have hshare := h.abs_sub_le hhalf hq
  have hdist := abs_nonneg (x.printed precision - y.value)
  rw [habs] at hshare
  have hsign : y.negative = x.negative := by
    apply negative_of_near (d := (x.rounded precision).toRat)
    rw [← printed_eq hzero]
    linarith
  have hbody : y.magnitudeText precision = x.magnitudeText precision := by
    apply magnitudeText_eq_of_near hzero hlow
    have hback := abs_abs_sub_abs_le y.value (x.printed precision)
    rw [abs_value, habs, abs_sub_comm y.value] at hback
    have hpower : (10 : ℚ) ^ precision ≤ 10 ^ 15 := pow_le_pow_right₀ (by norm_num) hhigh
    calc
      2 * 10 ^ precision * |y.exact - (x.rounded precision).toRat| ≤
          2 * 10 ^ 15 * |x.printed precision - y.value| := by gcongr
      _ < (x.rounded precision).toRat := by linarith
  unfold toJson
  rw [if_pos hx, if_pos h.finite, hbody, hsign]

end Fifteen

end Binary64

open Binary64 Json

theorem Request.render_float (x : Binary64) (sortKeys : Bool) (w : Workspace) :
    render (.float x) .null sortKeys w = .ok (x.toJson 17) w := by
  have hfault : Value.fault? Settings.roundTrip.limit sortKeys 0 (.float x) = none := by
    unfold Value.fault?
    rw [Value.nodes_eq]
    rfl
  obtain ⟨text, hrender, htext⟩ := render_of_fault?_eq_none (w := w) hfault
  have hresolve : render (.float x) .null sortKeys w =
      render (.float x) (.settings Settings.roundTrip) sortKeys w := render_of_resolve rfl
  rw [hresolve, hrender]
  congr 1
  apply String.toList_inj.1
  rw [htext]
  unfold Value.jsonText
  rfl

/-- Numbers with seventeen digits or more read back bit for bit, as those do for which no settings
are given. The text of a finite number denotes a number that is nearer to it than to any finite
number of another value, and nearer to the largest one than half the space beyond that. With the
sign of the text, which is that of the number also for zero, it is the only nearest number. -/
theorem Scalar.float_reads_back (x : Binary64) (hx : x.isFinite = true) (precision : ℤ)
    (hlow : 17 ≤ precision) (hhigh : precision < 2 ^ 31) :
    ∃ text : String, float (.float x) (.int precision) = .ok text ∧
      (precision = 17 → ∀ sortKeys w,
        Request.render (.float x) .null sortKeys w = .ok text w) ∧
      (text.toList.head? = some '-' ↔ x.negative = true) ∧
      (∃ q, Number text.toList q) ∧
      ∀ q, Number text.toList q →
        (∀ y : Binary64, y.isFinite = true → y.value ≠ x.value →
          |q - x.value| < |q - y.value|) ∧
        (x.exact = largest.exact → |q - x.value| < (2 ^ 1024 - largest.exact) / 2) ∧
        IsNearest q x ∧
        ∀ y, IsNearest q y → (y.negative = true ↔ text.toList.head? = some '-') → y = x := by
  obtain ⟨precision, rfl⟩ := Int.eq_ofNat_of_zero_le ((by decide : (0 : ℤ) ≤ 17).trans hlow)
  have hdigits : 17 ≤ precision := by omega
  refine ⟨x.toJson precision, float_of_lt x (by omega), ?_, head?_toJson hx precision,
    ⟨_, number_toJson hx precision⟩, ?_⟩
  · intro heq sortKeys w
    obtain rfl : precision = 17 := by omega
    exact Request.render_float x sortKeys w
  · intro q hq
    obtain rfl : q = x.printed precision := hq.unique (number_toJson hx precision)
    have hnear : 2 * 10 ^ 16 * |x.value - x.printed precision| ≤ x.exact := by
      apply le_trans _ (x.abs_sub_printed_le (by omega : 1 ≤ precision))
      apply mul_le_mul_of_nonneg_right _ (abs_nonneg _)
      apply mul_le_mul_of_nonneg_left _ (by norm_num)
      exact pow_le_pow_right₀ (by norm_num) (by omega)
    refine ⟨fun y _ hne => abs_sub_lt_of_near hnear hne, abs_sub_lt_of_largest hnear,
      isNearest_of_near hx hnear, ?_⟩
    intro y hy hsign
    exact hy.eq_of_near hx hnear (Bool.eq_iff_iff.2 (hsign.trans (head?_toJson hx precision)))

/-- The text of the number nearest to a tenth denotes a little more than a tenth. -/
theorem Scalar.float_reads_back_tenth :
    let x : Binary64 := ⟨false, 0x3fb999999999999a, by decide⟩
    x.isFinite = true ∧ float (.float x) (.int 17) = .ok "0.10000000000000001" ∧
      ∃ q, Number "0.10000000000000001".toList q ∧
        ∀ y, IsNearest q y → y.negative = false → y = x := by
  intro x
  have hshown : x.toJson 17 = "0.10000000000000001" := by decide
  have htext : float (.float x) (.int (17 : ℕ)) = .ok "0.10000000000000001" := by
    rw [float_of_lt x (by decide), hshown]
  obtain ⟨text, hok, -, -, ⟨q, hq⟩, hback⟩ :=
    float_reads_back x (by decide) 17 (by decide) (by decide)
  obtain rfl : "0.10000000000000001" = text := Except.ok.inj (htext.symm.trans hok)
  refine ⟨by decide, htext, q, hq, ?_⟩
  intro y hy hsign
  apply (hback q hq).2.2.2 y hy
  rw [hsign]
  exact iff_of_false nofun (by decide)

/-- Numbers with up to fifteen digits are stable. What the text of a number denotes is read as the
number nearest to it, if it does not exceed the finite ones, and that number has the same text. So
it is from the least normal number on, also where what is denoted lies below that. -/
theorem Scalar.float_stable (x : Binary64) (hx : x.isFinite = true)
    (hnormal : 2 ^ (-1022 : ℤ) ≤ x.exact) (precision : ℤ) (hlow : 1 ≤ precision)
    (hhigh : precision ≤ 15) :
    ∃ text : String, float (.float x) (.int precision) = .ok text ∧
      (∃ q, Number text.toList q) ∧
      ∀ q, Number text.toList q → |q| ≤ largest.exact →
        (∃ y, IsNearest q y) ∧
        ∀ y, IsNearest q y → float (.float y) (.int precision) = .ok text := by
  obtain ⟨precision, rfl⟩ := Int.eq_ofNat_of_zero_le ((by decide : (0 : ℤ) ≤ 1).trans hlow)
  have hlow : 1 ≤ precision := by omega
  have hhigh : precision ≤ 15 := by omega
  have hnumber := number_toJson hx precision
  refine ⟨x.toJson precision, float_of_le x (by omega), ⟨_, hnumber⟩, ?_⟩
  intro q hq hle
  obtain rfl : q = x.printed precision := hq.unique hnumber
  refine ⟨exists_isNearest hle, ?_⟩
  intro y hy
  rw [float_of_le y (by omega), hy.toJson_eq hx hnormal hlow hhigh hle]

/-- One digit does not tell one and a half from two, but two comes back as two. -/
theorem Scalar.float_stable_three_halves :
    let x : Binary64 := ⟨false, 0x3ff8000000000000, by decide⟩
    x.isFinite = true ∧ x.exact = 3 / 2 ∧ float (.float x) (.int 1) = .ok "2" ∧
      Number "2".toList 2 ∧ ∃ y, IsNearest 2 y ∧ float (.float y) (.int 1) = .ok "2" := by
  intro x
  have hexact : x.exact = 3 / 2 := by norm_num [x, Binary64.exact]
  have hshown : x.toJson 1 = "2" := by decide
  have htext : float (.float x) (.int (1 : ℕ)) = .ok "2" := by
    rw [float_of_le x (by decide), hshown]
  have hnormal : 2 ^ (-1022 : ℤ) ≤ x.exact := by
    rw [hexact]
    apply le_trans (zpow_le_one_of_nonpos₀ (by norm_num) (by decide))
    norm_num
  have hle : |(2 : ℚ)| ≤ largest.exact := by
    rw [abs_two, exact_largest]
    calc
      (2 : ℚ) ≤ (2 ^ 53 - 1) * 1 := by norm_num
      _ ≤ (2 ^ 53 - 1) * 2 ^ (971 : ℤ) := by
        apply mul_le_mul_of_nonneg_left _ (by norm_num)
        exact one_le_zpow₀ (by norm_num) (by decide)
  obtain ⟨text, hok, -, hstable⟩ :=
    float_stable x (by decide) hnormal 1 (by decide) (by decide)
  obtain rfl : "2" = text := Except.ok.inj (htext.symm.trans hok)
  have hnumber : Number "2".toList 2 := number_ofInt 2
  obtain ⟨⟨y, hy⟩, hsame⟩ := hstable 2 hnumber hle
  exact ⟨by decide, hexact, htext, hnumber, y, hy, hsame y hy⟩

end JsonWriter
