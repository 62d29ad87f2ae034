import JsonWriter.Document.Reader
import JsonWriter.Proofs.Json.Reading

/-! Numbers and words of a document: what their reading comes to, and that it comes to no less. -/
namespace JsonWriter.Document

open Json (Exponent Fraction NoDigit Stops Whole signed)

def minus (negative : Bool) : List Char := if negative then ['-'] else []

/-- An integer is over: no digit, no fraction and no exponent follows. -/
structure EndsInteger (r : List Char) : Prop where
  digit : NoDigit r
  fraction : ∀ {t digits rest}, Fraction t digits → r = t ++ rest → t = []
  exponent : ∀ {t e rest}, Exponent t e → r = t ++ rest → t = []

/-! Where an integer is over. -/

theorem noDigit_of_wholeDigits? {s t r : List Char} (h : wholeDigits? s = some (t, r))
    (hlong : 1 < t.length) : NoDigit r := by
  unfold wholeDigits? at h
  split at h
  · cases h
    exact absurd hlong (by simp)
  · rename_i c rest _
    split at h
    · cases h
      intro d hd
      have hdrop := List.head?_dropWhile_not Char.isDigit rest
      rw [Option.mem_def.1 hd] at hdrop
      exact hdrop
    · cases h
  · cases h

theorem fraction_eq_nil {t digits rest : List Char} (h : Fraction t digits)
    (hnone : (fractionDigits (t ++ rest)).1 = []) : t = [] := by
  cases h with
  | none => rfl
  | point hdigits =>
      cases digits with
      | nil => exact absurd rfl hdigits.1
      | cons c ds => simp [fractionDigits, hdigits.2 c List.mem_cons_self] at hnone

theorem exponent_eq_nil {t rest : List Char} {e : Int} (h : Exponent t e)
    (hnone : exponent? (t ++ rest) = none) : t = [] := by
  cases h with
  | none => rfl
  | @written letter sign negative ds hletter hsign hdigits =>
      have hletter : (letter == 'e' || letter == 'E') = true := by simpa using hletter
      cases ds with
      | nil => exact absurd rfl hdigits.1
      | cons c ds =>
          have hc := hdigits.2 c List.mem_cons_self
          have hne : c ≠ '-' ∧ c ≠ '+' := by
            constructor <;> rintro rfl <;> cases hc
          cases hsign <;> simp [exponent?, hletter, hne, hc] at hnone

theorem endsInteger_of_stops {r : List Char} (h : Stops r) : EndsInteger r where
  digit := h.digit
  fraction := by
    rintro t digits rest (_ | hdigits) rfl
    · rfl
    · exact absurd rfl h.point
  exponent := by
    rintro t e rest (_ | ⟨rfl | rfl, -, -⟩) rfl
    · rfl
    · exact absurd rfl h.letter.1
    · exact absurd rfl h.letter.2

theorem length_lt_of_exponent? {s r : List Char} {e : Int} (h : exponent? s = some (e, r)) :
    r.length < s.length := by
  unfold exponent? at h
  split at h
  · cases h
  · rename_i c rest
    split at h
    · split at h
      rename_i negative digits hsign
      have hdigits : digits.length ≤ rest.length := by
        split at hsign <;> cases hsign <;> simp
      dsimp only at h
      split at h
      · cases h
      · cases h
        have hdrop := (List.dropWhile_suffix Char.isDigit (l := digits)).length_le
        rw [List.length_cons]
        omega
    · cases h

theorem EndsInteger.fractionDigits {r : List Char} (h : EndsInteger r) :
    fractionDigits r = ([], r) := by
  obtain ⟨t, ht, hr⟩ := Json.fraction_of_fractionDigits r
  have hnil := h.fraction ht hr
  subst hnil
  cases hread : Document.fractionDigits r with
  | mk digits rest =>
      simp only [hread] at ht hr
      cases ht
      rw [hr]
      rfl

theorem EndsInteger.exponent? {r : List Char} (h : EndsInteger r) : exponent? r = none := by
  cases hread : Document.exponent? r with
  | none => rfl
  | some found =>
      obtain ⟨e, rest⟩ := found
      obtain ⟨t, ht, hr⟩ := Json.exponent_of_exponent? hread
      have hlt := length_lt_of_exponent? hread
      rw [hr, h.exponent ht hr] at hlt
      exact absurd hlt (Nat.lt_irrefl _)

/-! Numbers. -/

inductive ReadsNumber (negative : Bool) : List Char → Except Refusal (Parsed Value) → Prop
  | none (s : List Char) : ReadsNumber negative s (.error (.malformed .value))
  | tooLong {t r} : Whole t → Numeral.maxDigits < t.length → EndsInteger r →
      ReadsNumber negative (t ++ r) (.error (.numeralTooLong t.length))
  | integer {t} (r : List Char) : Whole t → t.length ≤ Numeral.maxDigits →
      ReadsNumber negative (t ++ r) (.ok (.int (signed negative (Numeral.value t : Int)), r))
  | float {whole fraction digits exponent e} (r : List Char) : Whole whole →
      Fraction fraction digits → Exponent exponent e → fraction ++ exponent ≠ [] →
      ReadsNumber negative (whole ++ (fraction ++ exponent) ++ r)
        (.ok (readNumber.float negative whole digits e, r))

theorem readNumber_reads (negative : Bool) (s : List Char) :
    ReadsNumber negative s (readNumber negative s) := by
  unfold readNumber
  split
  · exact .none s
  · rename_i whole rest hread
    have hwhole := Json.whole_of_wholeDigits? hread
    obtain ⟨t, hfraction, hrest⟩ := Json.fraction_of_fractionDigits rest
    rw [← append_of_wholeDigits? hread]
    cases hdigits : fractionDigits rest with
    | mk digits rest' =>
        simp only [hdigits] at hfraction hrest ⊢
        split
        · rename_i hnone
          cases hfraction with
          | point hdigits => exact absurd rfl hdigits.1
          | none =>
              rw [List.nil_append] at hrest
              subst hrest
              split
              · rename_i hlong
                refine .tooLong hwhole hlong ⟨noDigit_of_wholeDigits? hread ?_, ?_, ?_⟩
                · exact Nat.lt_of_le_of_lt (by decide) hlong
                · rintro u ds next hu rfl
                  exact fraction_eq_nil hu (by rw [hdigits])
                · rintro u e next hu rfl
                  exact exponent_eq_nil hu hnone
              · rename_i hshort
                exact .integer rest hwhole (Nat.not_lt.1 hshort)
        · rename_i hne _
          have hsome : t ++ [] ≠ [] := by
            cases hfraction with
            | none => exact absurd rfl hne
            | point _ => simp
          have hsplit : whole ++ rest = whole ++ (t ++ []) ++ rest' := by
            rw [hrest, List.append_nil, List.append_assoc]
          rw [hsplit]
          exact .float rest' hwhole hfraction .none hsome
        · rename_i e r hexponent
          obtain ⟨u, hu, hr⟩ := Json.exponent_of_exponent? hexponent
          have hsome : t ++ u ≠ [] := by
            intro hnil
            have hlt := length_lt_of_exponent? hexponent
            rw [hr, (List.append_eq_nil_iff.1 hnil).2] at hlt
            exact absurd hlt (Nat.lt_irrefl _)
          have hsplit : whole ++ rest = whole ++ (t ++ u) ++ r := by
            rw [hrest, hr, List.append_assoc, List.append_assoc]
          rw [hsplit]
          exact .float r hwhole hfraction hu hsome

theorem readNumber_integer {t r : List Char} (negative : Bool) (ht : Whole t)
    (hr : EndsInteger r) : readNumber negative (t ++ r) =
      if Numeral.maxDigits < t.length then .error (.numeralTooLong t.length)
      else .ok (.int (signed negative (Numeral.value t : Int)), r) := by
  unfold readNumber
  rw [Json.wholeDigits?_append ht hr.digit]
  simp only [hr.fractionDigits, hr.exponent?]
  rfl

theorem readNumber_float {whole fraction digits exponent r : List Char} {e : Int}
    (negative : Bool) (hwhole : Whole whole) (hfraction : Fraction fraction digits)
    (hexponent : Exponent exponent e) (hne : fraction ++ exponent ≠ []) (hr : Stops r) :
    readNumber negative (whole ++ (fraction ++ exponent) ++ r) =
      .ok (readNumber.float negative whole digits e, r) := by
  obtain ⟨hdigit, hpoint⟩ := hexponent.noDigit hr
  have hread := Json.exponent?_append hexponent hr
  unfold readNumber
  rw [List.append_assoc, List.append_assoc,
    Json.wholeDigits?_append hwhole (hfraction.noDigit hdigit)]
  simp only [Json.fractionDigits_append hfraction hdigit hpoint]
  cases hfound : Document.exponent? (exponent ++ r) with
  | none =>
      rw [hfound, Option.getD_none] at hread
      cases exponent_eq_nil hexponent hfound
      cases hexponent
      cases hfraction with
      | none => exact absurd rfl hne
      | point hdigits =>
          cases digits with
          | nil => exact absurd rfl hdigits.1
          | cons => rfl
  | some found =>
      rw [hfound, Option.getD_some] at hread
      rw [hread]
      cases digits <;> rfl

/-! Words, and all that is neither a string nor a collection. -/

inductive Word : List Char → Value → Prop
  | null : Word ['n', 'u', 'l', 'l'] .null
  | true : Word ['t', 'r', 'u', 'e'] (.bool true)
  | false : Word ['f', 'a', 'l', 's', 'e'] (.bool false)
  | notANumber : Word ['N', 'a', 'N'] (.float (Binary64.notANumber false))
  | infinite (negative : Bool) :
      Word (minus negative ++ ['I', 'n', 'f', 'i', 'n', 'i', 't', 'y'])
        (readScalar.infinite negative)

inductive ReadsScalar : List Char → Except Refusal (Parsed Value) → Prop
  | word {t v} (r : List Char) : Word t v → ReadsScalar (t ++ r) (.ok (v, r))
  | number {negative s result} : ReadsNumber negative s result →
      ReadsScalar (minus negative ++ s) result

theorem readScalar_reads (s : List Char) : ReadsScalar s (readScalar s) := by
  unfold readScalar
  split
  · exact .word _ .null
  · exact .word _ .true
  · exact .word _ .false
  · exact .word _ .notANumber
  · exact .word _ (.infinite false)
  · exact .word _ (.infinite true)
  · rename_i rest _
    exact ReadsScalar.number (readNumber_reads true rest)
  · exact ReadsScalar.number (readNumber_reads false s)

theorem readScalar_minus {c : Char} (hc : c.isDigit = true) (negative : Bool) (s : List Char) :
    readScalar (minus negative ++ c :: s) = readNumber negative (c :: s) := by
  have hne : ∀ d : Char, d.isDigit = false → c ≠ d := by
    rintro d hd rfl
    rw [hc] at hd
    cases hd
  cases negative with
  | false => simp [minus, readScalar, hne]
  | true => simp [minus, readScalar, hne]

/-- Characters by which something else begins or ends, or nothing. -/
def foreign : List Char := ['"', '[', ']', '\x7b', '\ufeff']

theorem not_foreign_of_isDigit {c : Char} (hc : c.isDigit = true) :
    isSpace c = false ∧ c ∉ foreign := by
  have hne : ∀ d : Char, d.isDigit = false → c ≠ d := by
    rintro d hd rfl
    rw [hc] at hd
    cases hd
  simp [isSpace, foreign, hne]

/-- What is of its own kind is read as a word or a number. -/
theorem readValue_of_readScalar {steps : Nat} {c : Char} {s : List Char} (h : c ∉ foreign) :
    readValue (steps + 1) (c :: s) = readScalar (c :: s) := by
  unfold readValue
  split
  iterate 3
    rename_i heq
    cases heq
    exact absurd h (by decide)
  rfl

/-- Where an integer is over it is read as one, or refused for its length. -/
theorem readScalar_integer {t r : List Char} (negative : Bool) (ht : Whole t)
    (hr : EndsInteger r) : readScalar (minus negative ++ t ++ r) =
      if Numeral.maxDigits < t.length then .error (.numeralTooLong t.length)
      else .ok (.int (signed negative (Numeral.value t : Int)), r) := by
  rw [← readNumber_integer negative ht hr, List.append_assoc]
  obtain ⟨c, s, rfl, hc⟩ := ht.head
  exact readScalar_minus hc negative _

theorem readValue_integer {t r : List Char} (steps : Nat) (negative : Bool) (ht : Whole t)
    (hr : EndsInteger r) : readValue (steps + 1) (minus negative ++ t ++ r) =
      if Numeral.maxDigits < t.length then .error (.numeralTooLong t.length)
      else .ok (.int (signed negative (Numeral.value t : Int)), r) := by
  rw [← readScalar_integer negative ht hr]
  obtain ⟨c, s, rfl, hc⟩ := ht.head
  cases negative with
  | false => exact readValue_of_readScalar (not_foreign_of_isDigit hc).2
  | true => exact readValue_of_readScalar (by decide)

end JsonWriter.Document
