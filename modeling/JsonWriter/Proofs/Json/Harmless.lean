import JsonWriter.Proofs.Json.Brackets
import JsonWriter.Proofs.Json.ScalarText

/-! Texts without dangerous characters. Such a text can be put into a page or a line of a log as it
is: what could end a script or a line stands in it only in escaped form. -/
namespace JsonWriter

namespace ScanPlace

/-- Where a scan stands after one more character. -/
def next : ScanPlace → Char → ScanPlace
  | .outside, '"' => .literal
  | .outside, _ => .outside
  | .literal, '"' => .outside
  | .literal, '\\' => .escape
  | .literal, _ => .literal
  | .escape, _ => .literal

def after (p : ScanPlace) (t : List Char) : ScanPlace := t.foldl next p

end ScanPlace

namespace Json

/-- The characters outside of string literals, in texts without spaces. -/
def structural : List Char :=
  ['[', ']', '\x7b', '\x7d', ',', ':', '+', '-', '.', 'e',
   '0', '1', '2', '3', '4', '5', '6', '7', '8', '9',
   'n', 'u', 'l', 't', 'r', 'f', 'a', 's']

/-- No control stands in the text, no slash without a backslash before it, and outside of string
literals nothing but brackets, separators, digits and the letters of the words. -/
structure Harmless (t : List Char) : Prop where
  control : ∀ c ∈ t, 0x20 ≤ c.toNat ∧ c.toNat ≠ 0x7f
  slash : ∀ before rest, t = before ++ '/' :: rest → before.getLast? = some '\\'
  outside : ∀ before c rest, t = before ++ c :: rest →
    ScanPlace.outside.after before = .outside → c = '"' ∨ c ∈ structural

theorem Harmless.of_prefix {t u : List Char} (h : Harmless t) (hu : u <+: t) : Harmless u where
  control c hc := h.control c (hu.subset hc)
  slash before rest hsplit := by
    obtain ⟨v, rfl⟩ := hu
    apply h.slash before (rest ++ v)
    simp [hsplit]
  outside before c rest hsplit := by
    obtain ⟨v, rfl⟩ := hu
    apply h.outside before c (rest ++ v)
    simp [hsplit]

/-- No closing tag stands in such a text. -/
theorem Harmless.no_closing_tag {t : List Char} (h : Harmless t) : ¬['<', '/'] <:+: t := by
  rintro ⟨before, rest, rfl⟩
  have hlast := h.slash (before ++ ['<']) rest (by simp)
  simp at hlast

/-- A scan passes over a text from one place to another and meets nothing dangerous. -/
inductive Passes : ScanPlace → List Char → ScanPlace → Prop
  | nil (p) : Passes p [] p
  | mark {c t q} : c ∈ structural → Passes .outside t q → Passes .outside (c :: t) q
  | opening {t q} : Passes .literal t q → Passes .outside ('"' :: t) q
  | closing {t q} : Passes .outside t q → Passes .literal ('"' :: t) q
  | plain {c t q} : Text.needsEscape c = false → Passes .literal t q → Passes .literal (c :: t) q
  | escaped {c t q} : 0x20 ≤ c.toNat → c.toNat ≠ 0x7f → Passes .literal t q →
      Passes .literal ('\\' :: c :: t) q

namespace Passes

variable {p q r : ScanPlace} {t u : List Char}

theorem append (h : Passes p t q) (hu : Passes q u r) : Passes p (t ++ u) r := by
  induction h with
  | nil p => exact hu
  | mark hc _ ih => exact .mark hc (ih hu)
  | opening _ ih => exact .opening (ih hu)
  | closing _ ih => exact .closing (ih hu)
  | plain hc _ ih => exact .plain hc (ih hu)
  | escaped hc hdel _ ih => exact .escaped hc hdel (ih hu)

theorem of_structural (h : ∀ c ∈ t, c ∈ structural) : Passes .outside t .outside := by
  induction t with
  | nil => exact .nil _
  | cons c t ih =>
      rw [List.forall_mem_cons] at h
      exact .mark h.1 (ih h.2)

theorem structural_control : ∀ c ∈ structural, 0x20 ≤ c.toNat ∧ c.toNat ≠ 0x7f ∧ c ≠ '/' := by
  simp [structural]

theorem plain_control {c : Char} (h : Text.needsEscape c = false) :
    0x20 ≤ c.toNat ∧ c.toNat ≠ 0x7f ∧ c ≠ '/' ∧ c ≠ '"' ∧ c ≠ '\\' := by
  simp only [Text.needsEscape, Text.isControl, Bool.or_eq_false_iff, decide_eq_false_iff_not,
    beq_eq_false_iff_ne] at h
  refine ⟨Nat.le_of_not_lt h.1.1, h.1.2, ?_, ?_, ?_⟩ <;> rintro rfl <;> simp [Text.shortForm?] at h

/-- No other character than the quote begins a literal. -/
theorem next_of_structural {c : Char} (h : c ∈ structural) :
    ScanPlace.outside.next c = .outside := by
  have hquote : c ≠ '"' := by
    rintro rfl
    simp [structural] at h
  unfold ScanPlace.next
  split <;> simp_all

theorem next_of_plain {c : Char} (h : Text.needsEscape c = false) :
    ScanPlace.literal.next c = .literal := by
  obtain ⟨-, -, -, hquote, hslash⟩ := plain_control h
  unfold ScanPlace.next
  split <;> simp_all

theorem control (h : Passes p t q) : ∀ c ∈ t, 0x20 ≤ c.toNat ∧ c.toNat ≠ 0x7f := by
  induction h with
  | nil p => exact nofun
  | mark hc _ ih =>
      have hc := structural_control _ hc
      exact List.forall_mem_cons.2 ⟨⟨hc.1, hc.2.1⟩, ih⟩
  | opening _ ih | closing _ ih => exact List.forall_mem_cons.2 ⟨by decide, ih⟩
  | plain hc _ ih =>
      have hc := plain_control hc
      exact List.forall_mem_cons.2 ⟨⟨hc.1, hc.2.1⟩, ih⟩
  | escaped hc hdel _ ih =>
      exact List.forall_mem_cons.2 ⟨by decide, List.forall_mem_cons.2 ⟨⟨hc, hdel⟩, ih⟩⟩

theorem slash (h : Passes p t q) : ∀ before rest, t = before ++ '/' :: rest →
    before.getLast? = some '\\' := by
  -- A slash at the start of a text has to stand right after a backslash of that text.
  have hcons : ∀ {c : Char} {t : List Char}, c ≠ '/' →
      (∀ before rest, t = before ++ '/' :: rest → before.getLast? = some '\\') →
      ∀ before rest, c :: t = before ++ '/' :: rest → before.getLast? = some '\\' := by
    intro c t hc ih before rest hsplit
    cases before with
    | nil => exact absurd (List.cons.inj hsplit).1 hc
    | cons b before =>
        rw [List.getLast?_cons, ih before rest (List.cons.inj hsplit).2]
        rfl
  induction h with
  | nil p => simp
  | mark hc _ ih => exact hcons (structural_control _ hc).2.2 ih
  | opening _ ih | closing _ ih => exact hcons (by decide) ih
  | plain hc _ ih => exact hcons (plain_control hc).2.2.1 ih
  | @escaped c t _ _ _ _ ih =>
      intro before rest hsplit
      match before with
      | [] => exact absurd (List.cons.inj hsplit).1 (by decide)
      | [b] =>
          rw [← (List.cons.inj hsplit).1]
          rfl
      | b :: b' :: before =>
          rw [List.getLast?_cons_cons, List.getLast?_cons, ih before rest (by simp_all)]
          rfl

theorem outside (h : Passes p t q) : ∀ before c rest, t = before ++ c :: rest →
    p.after before = .outside → c = '"' ∨ c ∈ structural := by
  -- What is read from the first character on is judged from the next place of the scan.
  have hcons : ∀ {p : ScanPlace} {c : Char} {t : List Char},
      (p = .outside → c = '"' ∨ c ∈ structural) →
      (∀ before d rest, t = before ++ d :: rest →
        (p.next c).after before = .outside → d = '"' ∨ d ∈ structural) →
      ∀ before d rest, c :: t = before ++ d :: rest → p.after before = .outside →
        d = '"' ∨ d ∈ structural := by
    intro p c t hc ih before d rest hsplit hp
    cases before with
    | nil =>
        rw [← (List.cons.inj hsplit).1]
        exact hc hp
    | cons b before =>
        rw [← (List.cons.inj hsplit).1] at hp
        exact ih before d rest (List.cons.inj hsplit).2 hp
  induction h with
  | nil p => simp
  | mark hc _ ih =>
      refine hcons (fun _ => .inr hc) ?_
      rwa [next_of_structural hc]
  | opening _ ih => exact hcons (fun _ => .inl rfl) ih
  | closing _ ih => exact hcons nofun ih
  | plain hc _ ih =>
      refine hcons nofun ?_
      rwa [next_of_plain hc]
  | escaped _ _ _ ih => exact hcons nofun (hcons nofun ih)

theorem harmless (h : Passes .outside t q) : Harmless t := ⟨h.control, h.slash, h.outside⟩

end Passes

/-! The texts of single values pass. -/

theorem structural_of_isDigit {c : Char} (h : c.isDigit = true) : c ∈ structural := by
  have hdigits : ∀ n < 10, Char.ofNat (48 + n) ∈ structural := by decide
  simp only [Char.isDigit, Bool.and_eq_true, decide_eq_true_eq, ge_iff_le, UInt32.le_iff_toNat_le]
    at h
  have hlow : 48 ≤ c.toNat := h.1
  have hhigh : c.toNat ≤ 57 := h.2
  have hc := hdigits (c.toNat - 48) (by omega)
  rwa [Nat.add_sub_cancel' hlow, Char.ofNat_toNat] at hc

theorem structural_toDigits (n : Nat) : ∀ c ∈ Nat.toDigits 10 n, c ∈ structural :=
  fun c hc => structural_of_isDigit ((digits_toDigits n).2 c hc)

theorem structural_replicate_zero (n : Nat) : ∀ c ∈ List.replicate n '0', c ∈ structural := by
  intro c hc
  rw [List.eq_of_mem_replicate hc]
  decide

theorem structural_significantDigits (d : Decimal) :
    ∀ c ∈ d.significantDigits, c ∈ structural := by
  intro c hc
  obtain ⟨k, hk⟩ := eq_append_replicate (Nat.toDigits 10 d.coefficient)
  apply structural_toDigits d.coefficient
  rw [hk]
  exact List.mem_append_left _ hc

theorem structural_exponentText (e : Int) :
    ∀ c ∈ Decimal.exponentText e, c ∈ structural := by
  have hdigits := structural_toDigits e.natAbs
  unfold Decimal.exponentText
  refine List.forall_mem_cons.2 ⟨?_, ?_⟩
  · split <;> decide
  · split
    · exact List.forall_mem_cons.2 ⟨by decide, hdigits⟩
    · exact hdigits

theorem structural_positional {ds : List Char} (marksWhole : Bool) (leading : Int)
    (h : ∀ c ∈ ds, c ∈ structural) :
    ∀ c ∈ Decimal.positional marksWhole leading ds, c ∈ structural := by
  have hpoint : '.' ∈ structural := by decide
  unfold Decimal.positional
  split
  · simp only [List.cons_append, List.forall_mem_cons, List.forall_mem_append]
    exact ⟨by decide, hpoint, structural_replicate_zero _, h⟩
  · dsimp only
    split
    · simp only [List.forall_mem_append]
      refine ⟨⟨h, structural_replicate_zero _⟩, ?_⟩
      cases marksWhole <;> simp [structural]
    · simp only [List.forall_mem_append, List.forall_mem_cons]
      exact ⟨fun c hc => h c (List.mem_of_mem_take hc), hpoint,
        fun c hc => h c (List.mem_of_mem_drop hc)⟩

theorem structural_scientific {ds : List Char} (leading : Int) (h : ∀ c ∈ ds, c ∈ structural) :
    ∀ c ∈ Decimal.scientific leading ds, c ∈ structural := by
  have hexponent : ∀ c ∈ 'e' :: Decimal.exponentText leading, c ∈ structural :=
    List.forall_mem_cons.2 ⟨by decide, structural_exponentText leading⟩
  match ds with
  | [] => exact nofun
  | [digit] => exact List.forall_mem_cons.2 ⟨h digit List.mem_cons_self, hexponent⟩
  | digit :: next :: rest =>
      rw [List.forall_mem_cons] at h
      rw [Decimal.scientific, List.cons_append, List.cons_append]
      · exact List.forall_mem_cons.2 ⟨h.1, List.forall_mem_cons.2
          ⟨by decide, List.forall_mem_append.2 ⟨h.2, hexponent⟩⟩⟩
      · exact nofun

theorem structural_write (layout : Decimal.Layout) (d : Decimal) :
    ∀ c ∈ layout.write d, c ∈ structural := by
  unfold Decimal.Layout.write
  split
  · exact structural_positional _ _ (structural_significantDigits d)
  · exact structural_scientific _ (structural_significantDigits d)

theorem structural_toJson (precision : Nat) (x : Binary64) :
    ∀ c ∈ (x.toJson precision).toList, c ∈ structural := by
  have hmagnitude : ∀ c ∈ x.magnitudeText precision, c ∈ structural := by
    unfold Binary64.magnitudeText
    split
    · simp [structural]
    · exact structural_write _ _
  unfold Binary64.toJson
  split
  · rw [String.toList_ofList]
    split
    · exact List.forall_mem_cons.2 ⟨by decide, hmagnitude⟩
    · exact hmagnitude
  · simp [structural]

theorem structural_ofInt (n : Int) : ∀ c ∈ Numeral.ofInt n, c ∈ structural := by
  have hdigits := structural_toDigits n.natAbs
  unfold Numeral.ofInt
  split
  · exact List.forall_mem_cons.2 ⟨by decide, hdigits⟩
  · exact hdigits

theorem shortForm?_control {c letter : Char} (h : Text.shortForm? c = some letter) :
    0x20 ≤ letter.toNat ∧ letter.toNat ≠ 0x7f := by
  unfold Text.shortForm? at h
  split at h
  all_goals cases h
  all_goals decide

namespace Passes

variable {q : ScanPlace} {t : List Char}

/-- What stands for one character of a text leaves the scan in the literal. -/
theorem escapeChar (c : Char) (h : Passes .literal t q) :
    Passes .literal (Text.escapeChar c ++ t) q := by
  cases hc : Text.needsEscape c with
  | false =>
      rw [Text.escapeChar_of_not_needsEscape hc]
      exact .plain hc h
  | true =>
      unfold Text.escapeChar
      split
      · rename_i letter hletter
        obtain ⟨hspace, hdel⟩ := shortForm?_control hletter
        exact .escaped hspace hdel h
      · rename_i hnone
        have hcontrol : Text.isControl c = true := by
          simpa [Text.needsEscape, hnone] using hc
        rw [if_pos hcontrol]
        have hlt : c.toNat < 128 := by
          simp only [Text.isControl, Bool.or_eq_true, decide_eq_true_eq, beq_iff_eq] at hcontrol
          omega
        have hdigit : ∀ n < 16, Text.needsEscape (Nat.digitChar n) = false := by decide
        exact .escaped (by decide) (by decide) (.plain (by decide) (.plain (by decide)
          (.plain (hdigit _ (by omega)) (.plain (hdigit _ (by omega)) h))))

theorem escape (s : String) : Passes .literal (Text.escape s).toList .literal := by
  rw [Text.toList_escape]
  generalize s.toList = chars
  induction chars with
  | nil => exact .nil _
  | cons c chars ih => exact ih.escapeChar c

theorem quote (s : String) : Passes .outside (Text.quote s).toList .outside := by
  rw [toList_quote]
  exact .opening ((escape s).append (.closing (.nil _)))

end Passes
end Json
end JsonWriter
