import JsonWriter.Proofs.Json.Reader

/-! The reader takes numbers as the grammar has them, and as far as they go. -/
namespace JsonWriter.Json

open Document (wholeDigits? fractionDigits exponent?)

def NoDigit (s : List Char) : Prop := ∀ c ∈ s.head?, c.isDigit = false

/-- Nothing comes first by which a number could go on. -/
structure Stops (s : List Char) : Prop where
  digit : NoDigit s
  point : s.head? ≠ some '.'
  letter : s.head? ≠ some 'e' ∧ s.head? ≠ some 'E'

theorem takeWhile_digits {ds r : List Char} (h : ∀ c ∈ ds, c.isDigit = true) (hr : NoDigit r) :
    (ds ++ r).takeWhile Char.isDigit = ds ∧ (ds ++ r).dropWhile Char.isDigit = r := by
  rw [List.takeWhile_append_of_pos h, List.dropWhile_append_of_pos h]
  cases r with
  | nil => simp
  | cons c r =>
      have hc := hr c rfl
      simp [hc]

theorem digits_takeWhile {c : Char} (hc : c.isDigit = true) (rest : List Char) :
    Digits (c :: rest.takeWhile Char.isDigit) := by
  refine ⟨List.cons_ne_nil _ _, ?_⟩
  intro d hd
  rcases List.mem_cons.1 hd with rfl | hd
  · exact hc
  · exact List.mem_takeWhile_imp hd

theorem whole_of_wholeDigits? {s ds r : List Char} (h : wholeDigits? s = some (ds, r)) :
    Whole ds := by
  unfold wholeDigits? at h
  split at h
  · cases h
    exact .inl rfl
  · rename_i c rest hz
    split at h
    · rename_i hc
      cases h
      refine .inr ⟨digits_takeWhile hc rest, ?_⟩
      intro h0
      exact hz (Option.some.inj h0)
    · cases h
  · cases h

theorem wholeDigits?_append {ds r : List Char} (h : Whole ds) (hr : NoDigit r) :
    wholeDigits? (ds ++ r) = some (ds, r) := by
  rcases h with rfl | ⟨⟨hne, hds⟩, h0⟩
  · rfl
  · cases ds with
    | nil => exact absurd rfl hne
    | cons c ds =>
        have hc := hds c List.mem_cons_self
        have hz : c ≠ '0' := fun h => h0 (congrArg some h)
        obtain ⟨ht, hd⟩ := takeWhile_digits (fun d hd => hds d (List.mem_cons_of_mem c hd)) hr
        rw [List.cons_append, wholeDigits?]
        · rw [if_pos hc, ht, hd]
        · exact hz

theorem fraction_of_fractionDigits (s : List Char) :
    ∃ t, Fraction t (fractionDigits s).1 ∧ s = t ++ (fractionDigits s).2 := by
  unfold fractionDigits
  split
  · rename_i c rest
    split
    · rename_i hc
      refine ⟨_, .point (digits_takeWhile hc rest), ?_⟩
      simp only [List.cons_append, List.takeWhile_append_dropWhile]
    · exact ⟨[], .none, rfl⟩
  · exact ⟨[], .none, rfl⟩

theorem fractionDigits_append {t ds r : List Char} (h : Fraction t ds) (hr : NoDigit r)
    (hp : r.head? ≠ some '.') : fractionDigits (t ++ r) = (ds, r) := by
  cases h with
  | none =>
      rw [List.nil_append, fractionDigits]
      rintro c rest rfl
      exact hp rfl
  | point h =>
      obtain ⟨hne, hds⟩ := h
      cases ds with
      | nil => exact absurd rfl hne
      | cons c ds =>
          have hc := hds c List.mem_cons_self
          obtain ⟨ht, hd⟩ := takeWhile_digits (fun d hd => hds d (List.mem_cons_of_mem c hd)) hr
          simp only [List.cons_append, fractionDigits, hc, if_true, ht, hd]

theorem exponent_of_exponent? {s r : List Char} {e : Int} (h : exponent? s = some (e, r)) :
    ∃ t, Exponent t e ∧ s = t ++ r := by
  unfold exponent? at h
  split at h
  · cases h
  · rename_i c rest
    split at h
    · rename_i hc
      simp only [Bool.or_eq_true, beq_iff_eq] at hc
      split at h
      rename_i negative digits hm
      obtain ⟨sign, hs, rfl⟩ : ∃ sign, Sign sign negative ∧ rest = sign ++ digits := by
        split at hm
        · cases hm
          exact ⟨_, .minus, rfl⟩
        · cases hm
          exact ⟨_, .plus, rfl⟩
        · cases hm
          exact ⟨_, .none, rfl⟩
      dsimp only at h
      by_cases hne : (digits.takeWhile Char.isDigit).isEmpty = true
      · rw [if_pos hne] at h
        cases h
      · rw [if_neg hne] at h
        cases h
        refine ⟨_, .written hc hs ⟨?_, fun c hc => List.mem_takeWhile_imp hc⟩, ?_⟩
        · exact fun h => hne (List.isEmpty_iff.2 h)
        · simp only [List.cons_append, List.append_assoc, List.takeWhile_append_dropWhile]
    · cases h

theorem exponent?_append {t r : List Char} {e : Int} (h : Exponent t e) (hr : Stops r) :
    (exponent? (t ++ r)).getD (0, t ++ r) = (e, r) := by
  cases h with
  | none =>
      cases r with
      | nil => rfl
      | cons c r =>
          have hc : ¬ (c = 'e' ∨ c = 'E') := by
            rintro (rfl | rfl)
            · exact hr.letter.1 rfl
            · exact hr.letter.2 rfl
          have hf : (c == 'e' || c == 'E') = false := by simpa using hc
          simp [exponent?, hf]
  | @written letter sign negative ds hl hs hd =>
      have hl : (letter == 'e' || letter == 'E') = true := by simpa using hl
      obtain ⟨ht, hw⟩ := takeWhile_digits hd.2 hr.digit
      have hne : ds.isEmpty = false := by simpa using hd.1
      cases hs with
      | plus => simp [exponent?, hl, ht, hw, hne, signed]
      | minus => simp [exponent?, hl, ht, hw, hne, signed]
      | none =>
          cases ds with
          | nil => exact absurd rfl hd.1
          | cons c ds =>
              have hc : c ≠ '-' ∧ c ≠ '+' := by
                have := hd.2 c List.mem_cons_self
                constructor <;> rintro rfl <;> cases this
              simp only [List.nil_append, List.cons_append] at ht hw ⊢
              simp [exponent?, hl, hc, ht, hw, signed]

theorem Fraction.noDigit {t ds r : List Char} (h : Fraction t ds) (hr : NoDigit r) :
    NoDigit (t ++ r) := by
  cases h with
  | none => exact hr
  | point hd =>
      rintro c ⟨⟩
      rfl

theorem Exponent.noDigit {t r : List Char} {e : Int} (h : Exponent t e) (hr : Stops r) :
    NoDigit (t ++ r) ∧ (t ++ r).head? ≠ some '.' := by
  cases h with
  | none => exact ⟨hr.digit, hr.point⟩
  | written hl hs hd =>
      rcases hl with rfl | rfl
      · exact ⟨fun c hc => by cases hc; rfl, nofun⟩
      · exact ⟨fun c hc => by cases hc; rfl, nofun⟩

theorem Whole.head {t : List Char} (h : Whole t) : ∃ c r, t = c :: r ∧ c.isDigit = true := by
  rcases h with rfl | ⟨⟨hne, hd⟩, -⟩
  · exact ⟨_, _, rfl, rfl⟩
  · obtain ⟨c, r, rfl⟩ := List.exists_cons_of_ne_nil hne
    exact ⟨c, r, rfl, hd c List.mem_cons_self⟩

theorem Magnitude.head {t : List Char} {q : ℚ} (h : Magnitude t q) :
    ∃ c s, t = c :: s ∧ c.isDigit = true := by
  cases h with
  | mk hw hf he =>
      obtain ⟨c, ds, rfl, hc⟩ := hw.head
      exact ⟨c, _, rfl, hc⟩

theorem magnitude_of_readMagnitude? {s r : List Char} {q : ℚ}
    (h : readMagnitude? s = some (q, r)) : ∃ t, Magnitude t q ∧ s = t ++ r := by
  obtain ⟨⟨whole, rest⟩, hw, h⟩ := Option.map_eq_some_iff.1 h
  obtain ⟨f, hf, hrest⟩ := fraction_of_fractionDigits rest
  have hwhole := whole_of_wholeDigits? hw
  have happ := Document.append_of_wholeDigits? hw
  dsimp only at h
  cases he : exponent? (fractionDigits rest).2 with
  | none =>
      rw [he, Option.getD_none] at h
      cases h
      refine ⟨_, .mk hwhole hf .none, ?_⟩
      rw [← happ, List.append_nil, List.append_assoc, ← hrest]
  | some er =>
      obtain ⟨e, r'⟩ := er
      rw [he, Option.getD_some] at h
      cases h
      obtain ⟨t, ht, happ'⟩ := exponent_of_exponent? he
      refine ⟨_, .mk hwhole hf ht, ?_⟩
      rw [List.append_assoc, List.append_assoc, ← happ', ← hrest, happ]

theorem number_of_readNumber? {s r : List Char} {q : ℚ} (h : readNumber? s = some (q, r)) :
    ∃ t, Number t q ∧ s = t ++ r := by
  unfold readNumber? at h
  split at h
  · obtain ⟨⟨q', r'⟩, hread, heq⟩ := Option.map_eq_some_iff.1 h
    cases heq
    obtain ⟨t, ht, hs⟩ := magnitude_of_readMagnitude? hread
    exact ⟨_, .negative ht, by rw [hs, List.cons_append]⟩
  · obtain ⟨t, ht, hs⟩ := magnitude_of_readMagnitude? h
    exact ⟨t, .positive ht, hs⟩

theorem readMagnitude?_append {t r : List Char} {q : ℚ} (h : Magnitude t q) (hr : Stops r) :
    readMagnitude? (t ++ r) = some (q, r) := by
  cases h with
  | @mk whole fraction digits exponent e hw hf he =>
      obtain ⟨hd, hpoint⟩ := he.noDigit hr
      unfold readMagnitude?
      rw [List.append_assoc, List.append_assoc, wholeDigits?_append hw (hf.noDigit hd)]
      simp only [Option.map_some, fractionDigits_append hf hd hpoint, exponent?_append he hr]

theorem readNumber?_append {t r : List Char} {q : ℚ} (h : Number t q) (hr : Stops r) :
    readNumber? (t ++ r) = some (q, r) := by
  cases h with
  | negative h =>
      rw [List.cons_append, readNumber?, readMagnitude?_append h hr]
      rfl
  | positive h =>
      rw [← readMagnitude?_append h hr]
      obtain ⟨c, s, rfl, hc⟩ := h.head
      unfold readNumber?
      split
      · rename_i heq
        cases heq
        cases hc
      · rfl

end JsonWriter.Json
