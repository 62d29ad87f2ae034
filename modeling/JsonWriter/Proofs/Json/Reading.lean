import JsonWriter.Proofs.Json.Number
import JsonWriter.Proofs.Json.StringLiteral

/-! The reader and the grammar agree: a text is read as a value exactly where it denotes that
value. -/
namespace JsonWriter.Json

open Document (skipSpace isSpace)

theorem exists_blank_append_skipSpace (s : List Char) : ∃ w, Blank w ∧ s = w ++ skipSpace s :=
  ⟨s.takeWhile isSpace, fun _ hc => List.mem_takeWhile_imp hc,
    (List.takeWhile_append_dropWhile).symm⟩

theorem skipSpace_append {w : List Char} (h : Blank w) (s : List Char) :
    skipSpace (w ++ s) = skipSpace s := List.dropWhile_append_of_pos h

theorem skipSpace_cons {c : Char} (h : isSpace c = false) (s : List Char) :
    skipSpace (c :: s) = c :: s := List.dropWhile_cons_of_neg (by simp [h])

theorem Blank.append {w w' : List Char} (h : Blank w) (h' : Blank w') : Blank (w ++ w') := by
  intro c hc
  rcases List.mem_append.1 hc with hc | hc
  · exact h c hc
  · exact h' c hc

theorem Blank.stops {w r : List Char} (h : Blank w) (hr : Stops r) : Stops (w ++ r) := by
  cases w with
  | nil => exact hr
  | cons c w =>
      have hc := h c List.mem_cons_self
      simp only [isSpace, Bool.or_eq_true, beq_iff_eq] at hc
      rcases hc with ((rfl | rfl) | rfl) | rfl
      all_goals exact ⟨fun c hc => by cases hc; rfl, nofun, nofun, nofun⟩

theorem Spaced.blank {w t : List Char} {v : Json} (hw : Blank w) (h : Spaced t v) :
    Spaced (w ++ t) v := by
  cases h with
  | mk hw' ht hw'' =>
      rw [← List.append_assoc]
      exact .mk (hw.append hw') ht hw''

theorem Items.blank {w t : List Char} {vs : List Json} (hw : Blank w) (h : Items t vs) :
    Items (w ++ t) vs := by
  cases h with
  | one ht => exact .one (ht.blank hw)
  | more ht hts =>
      rw [← List.append_assoc]
      exact .more (ht.blank hw) hts

theorem Member.blank {w t : List Char} {m : String × Json} (hw : Blank w) (h : Member t m) :
    Member (w ++ t) m := by
  cases h with
  | mk hw' hname hcolon hv =>
      rw [← List.append_assoc]
      exact .mk (hw.append hw') hname hcolon hv

theorem Member.trail {w t : List Char} {m : String × Json} (h : Member t m) (hw : Blank w) :
    Member (t ++ w) m := by
  cases h with
  | mk hw' hname hcolon hv =>
      obtain @⟨w₁, u, v, w₂, h₁, hu, h₂⟩ := hv
      simpa using Member.mk hw' hname hcolon (.mk h₁ hu (h₂.append hw))

theorem Members.blank {w t : List Char} {ms : List (String × Json)} (hw : Blank w)
    (h : Members t ms) : Members (w ++ t) ms := by
  cases h with
  | one ht => exact .one (ht.blank hw)
  | more ht hts =>
      rw [← List.append_assoc]
      exact .more (ht.blank hw) hts

/-! What is read is a value. -/

theorem denotes_of_readScalar? {s r : List Char} {v : Json} (h : readScalar? s = some (v, r)) :
    ∃ t, Denotes t v ∧ s = t ++ r := by
  unfold readScalar? at h
  split at h
  · cases h
    exact ⟨_, .nullWord, rfl⟩
  · cases h
    exact ⟨_, .trueWord, rfl⟩
  · cases h
    exact ⟨_, .falseWord, rfl⟩
  · obtain ⟨⟨q, r'⟩, hq, heq⟩ := Option.map_eq_some_iff.1 h
    cases heq
    obtain ⟨t, ht, hs⟩ := number_of_readNumber? hq
    exact ⟨t, .number ht, hs⟩

/-- The step in which all four kinds of parts are read, each from what fewer steps read. -/
structure ReadsOnly (steps : Nat) : Prop where
  value : ∀ {s v r}, readValue? steps s = some (v, r) → ∃ t, Denotes t v ∧ s = t ++ r
  items : ∀ {s vs r}, readItems? steps s = some (vs, r) → ∃ t, Items t vs ∧ s = t ++ ']' :: r
  member : ∀ {s m r}, readMember? steps s = some (m, r) → ∃ t, Member t m ∧ s = t ++ r
  members : ∀ {s ms r}, readMembers? steps s = some (ms, r) →
    ∃ t, Members t ms ∧ s = t ++ '\x7d' :: r

theorem ReadsOnly.value_succ {steps : Nat} (ih : ReadsOnly steps) {s r : List Char} {v : Json}
    (h : readValue? (steps + 1) s = some (v, r)) : ∃ t, Denotes t v ∧ s = t ++ r := by
  unfold readValue? at h
  split at h
  · rename_i rest
    obtain ⟨⟨text, r'⟩, hread, heq⟩ := Option.map_eq_some_iff.1 h
    cases heq
    obtain ⟨t, ht, hrest⟩ := readString?_eq_some_iff.1 hread
    exact ⟨_, .string ht, by simp [hrest]⟩
  · rename_i rest
    obtain ⟨w, hw, hrest⟩ := exists_blank_append_skipSpace rest
    split at h
    · rename_i hs
      cases h
      refine ⟨_, .emptyArray hw, ?_⟩
      rw [hrest, hs]
      simp
    · obtain ⟨⟨items, r'⟩, hi, heq⟩ := Option.map_eq_some_iff.1 h
      cases heq
      obtain ⟨t, ht, hs⟩ := ih.items hi
      refine ⟨_, .array (ht.blank hw), ?_⟩
      rw [hrest, hs]
      simp
  · rename_i rest
    obtain ⟨w, hw, hrest⟩ := exists_blank_append_skipSpace rest
    split at h
    · rename_i hs
      cases h
      refine ⟨_, .emptyObject hw, ?_⟩
      rw [hrest, hs]
      simp
    · obtain ⟨⟨members, r'⟩, hm, heq⟩ := Option.map_eq_some_iff.1 h
      cases heq
      obtain ⟨t, ht, hs⟩ := ih.members hm
      refine ⟨_, .object (ht.blank hw), ?_⟩
      rw [hrest, hs]
      simp
  · exact denotes_of_readScalar? h

theorem ReadsOnly.items_succ {steps : Nat} (ih : ReadsOnly steps) {s r : List Char}
    {vs : List Json} (h : readItems? (steps + 1) s = some (vs, r)) :
    ∃ t, Items t vs ∧ s = t ++ ']' :: r := by
  unfold readItems? at h
  obtain ⟨⟨item, rest⟩, hv, hnext⟩ := Option.bind_eq_some_iff.1 h
  obtain ⟨t, ht, hs₀⟩ := ih.value hv
  obtain ⟨w, hw, hrest⟩ := exists_blank_append_skipSpace rest
  have hspaced : Spaced (t ++ w) item := .mk .nil ht hw
  dsimp only at hnext
  split at hnext
  · rename_i hs
    cases hnext
    refine ⟨_, .one hspaced, ?_⟩
    rw [hs₀, hrest, hs, List.append_assoc]
  · rename_i rest' hs
    obtain ⟨⟨items, r'⟩, hi, heq⟩ := Option.bind_eq_some_iff.1 hnext
    cases heq
    obtain ⟨ts, hts, hs'⟩ := ih.items hi
    obtain ⟨w', hw', hrest'⟩ := exists_blank_append_skipSpace rest'
    refine ⟨_, .more hspaced (hts.blank hw'), ?_⟩
    rw [hs₀, hrest, hs, hrest', hs']
    simp
  · cases hnext

theorem ReadsOnly.member_succ {steps : Nat} (ih : ReadsOnly steps) {s r : List Char}
    {m : String × Json} (h : readMember? (steps + 1) s = some (m, r)) :
    ∃ t, Member t m ∧ s = t ++ r := by
  unfold readMember? at h
  split at h
  · obtain ⟨⟨name, rest⟩, hn, hnext⟩ := Option.bind_eq_some_iff.1 h
    obtain ⟨t, ht, hs₀⟩ := readString?_eq_some_iff.1 hn
    obtain ⟨w, hw, hrest⟩ := exists_blank_append_skipSpace rest
    dsimp only at hnext
    split at hnext
    · rename_i rest' hs
      obtain ⟨⟨v, r'⟩, hv, heq⟩ := Option.bind_eq_some_iff.1 hnext
      cases heq
      obtain ⟨u, hu, hs'⟩ := ih.value hv
      obtain ⟨w', hw', hrest'⟩ := exists_blank_append_skipSpace rest'
      refine ⟨_, .mk .nil ht hw (hu.spaced.blank hw'), ?_⟩
      rw [hs₀, hrest, hs, hrest', hs']
      simp
    · cases hnext
  · cases h

theorem ReadsOnly.members_succ {steps : Nat} (ih : ReadsOnly steps) {s r : List Char}
    {ms : List (String × Json)} (h : readMembers? (steps + 1) s = some (ms, r)) :
    ∃ t, Members t ms ∧ s = t ++ '\x7d' :: r := by
  unfold readMembers? at h
  obtain ⟨⟨m, rest⟩, hm, hnext⟩ := Option.bind_eq_some_iff.1 h
  obtain ⟨t, ht, hs₀⟩ := ih.member hm
  obtain ⟨w, hw, hrest⟩ := exists_blank_append_skipSpace rest
  have hspaced : Member (t ++ w) m := ht.trail hw
  dsimp only at hnext
  split at hnext
  · rename_i hs
    cases hnext
    refine ⟨_, .one hspaced, ?_⟩
    rw [hs₀, hrest, hs, List.append_assoc]
  · rename_i rest' hs
    obtain ⟨⟨members, r'⟩, hi, heq⟩ := Option.bind_eq_some_iff.1 hnext
    cases heq
    obtain ⟨ts, hts, hs'⟩ := ih.members hi
    obtain ⟨w', hw', hrest'⟩ := exists_blank_append_skipSpace rest'
    refine ⟨_, .more hspaced (hts.blank hw'), ?_⟩
    rw [hs₀, hrest, hs, hrest', hs']
    simp
  · cases hnext

theorem readsOnly (steps : Nat) : ReadsOnly steps := by
  induction steps with
  | zero => exact ⟨nofun, nofun, nofun, nofun⟩
  | succ steps ih => exact ⟨ih.value_succ, ih.items_succ, ih.member_succ, ih.members_succ⟩

/-! A value is read. -/

theorem stops_comma (r : List Char) : Stops (',' :: r) :=
  ⟨fun c hc => by cases hc; rfl, nofun, nofun, nofun⟩

theorem stops_bracket (r : List Char) : Stops (']' :: r) :=
  ⟨fun c hc => by cases hc; rfl, nofun, nofun, nofun⟩

theorem stops_brace (r : List Char) : Stops ('\x7d' :: r) :=
  ⟨fun c hc => by cases hc; rfl, nofun, nofun, nofun⟩

theorem Number.head {t : List Char} {q : ℚ} (h : Number t q) :
    ∃ c s, t = c :: s ∧ (c = '-' ∨ c.isDigit = true) := by
  cases h with
  | positive h =>
      obtain ⟨c, s, rfl, hc⟩ := h.head
      exact ⟨c, s, rfl, .inr hc⟩
  | negative h => exact ⟨'-', _, rfl, .inl rfl⟩

/-- The first character of a value is not space, nor does it close anything. -/
theorem Denotes.head {t : List Char} {v : Json} (h : Denotes t v) :
    ∃ c s, t = c :: s ∧ isSpace c = false ∧ c ≠ ']' := by
  cases h with
  | number hq =>
      obtain ⟨c, s, rfl, hc⟩ := hq.head
      refine ⟨c, s, rfl, ?_, ?_⟩
      · rcases hc with rfl | hc
        · rfl
        · cases h : isSpace c with
          | false => rfl
          | true =>
              simp only [isSpace, Bool.or_eq_true, beq_iff_eq] at h
              rcases h with ((rfl | rfl) | rfl) | rfl <;> cases hc
      · rintro rfl
        rcases hc with hc | hc <;> cases hc
  | _ => exact ⟨_, _, rfl, rfl, by decide⟩

theorem readScalar?_number {t r : List Char} {q : ℚ} (h : Number t q) (hr : Stops r) :
    readScalar? (t ++ r) = some (.number q, r) := by
  have hread := readNumber?_append h hr
  obtain ⟨c, s, rfl, hc⟩ := h.head
  have hn : c ≠ 'n' ∧ c ≠ 't' ∧ c ≠ 'f' := by
    refine ⟨?_, ?_, ?_⟩ <;> rintro rfl <;> rcases hc with hc | hc <;> cases hc
  unfold readScalar?
  split
  · rename_i heq
    exact absurd (List.cons.inj heq).1 hn.1
  · rename_i heq
    exact absurd (List.cons.inj heq).1 hn.2.1
  · rename_i heq
    exact absurd (List.cons.inj heq).1 hn.2.2
  · rw [hread]
    rfl

theorem readValue?_of_readScalar? {steps : Nat} {c : Char} {s : List Char}
    (h : c ∉ ['"', '[', '\x7b']) : readValue? (steps + 1) (c :: s) = readScalar? (c :: s) := by
  simp only [List.mem_cons, List.not_mem_nil, or_false] at h
  unfold readValue?
  split
  · rename_i heq
    cases heq
    simp at h
  · rename_i heq
    cases heq
    simp at h
  · rename_i heq
    cases heq
    simp at h
  · rfl

theorem Spaced.skip {t : List Char} {v : Json} (h : Spaced t v) (r : List Char) :
    ∃ c s, skipSpace (t ++ r) = c :: s ∧ c ≠ ']' := by
  cases h with
  | @mk w t v w' hw ht hw' =>
      obtain ⟨c, s, rfl, hc, hne⟩ := ht.head
      refine ⟨c, s ++ (w' ++ r), ?_, hne⟩
      rw [List.append_assoc, skipSpace_append hw, List.append_assoc]
      exact skipSpace_cons hc _

theorem Items.skip {t : List Char} {vs : List Json} (h : Items t vs) (r : List Char) :
    ∃ c s, skipSpace (t ++ r) = c :: s ∧ c ≠ ']' := by
  cases h with
  | one ht => exact ht.skip r
  | more ht hts =>
      rw [List.append_assoc]
      exact ht.skip _

theorem Member.skip {t : List Char} {m : String × Json} (h : Member t m) (r : List Char) :
    ∃ s, skipSpace (t ++ r) = '"' :: s := by
  cases h with
  | mk hw hname hcolon hv =>
      rw [List.append_assoc, skipSpace_append hw]
      exact ⟨_, skipSpace_cons rfl _⟩

theorem Members.skip {t : List Char} {ms : List (String × Json)} (h : Members t ms)
    (r : List Char) : ∃ s, skipSpace (t ++ r) = '"' :: s := by
  cases h with
  | one ht => exact ht.skip r
  | more ht hts =>
      rw [List.append_assoc]
      exact ht.skip _

mutual

theorem Denotes.read {t : List Char} {v : Json} {steps : Nat} {r : List Char} :
    Denotes t v → 2 * t.length ≤ steps → Stops r → readValue? steps (t ++ r) = some (v, r) := by
  intro h hlen hr
  cases steps with
  | zero =>
      obtain ⟨c, s, rfl, -⟩ := h.head
      simp at hlen
  | succ steps =>
      -- A part is at least one character shorter than its whole, so two steps are left for it.
      match h with
      | .nullWord => rfl
      | .trueWord => rfl
      | .falseWord => rfl
      | .number hq =>
          obtain ⟨c, s, rfl, hc⟩ := hq.head
          rw [← readScalar?_number hq hr]
          apply readValue?_of_readScalar?
          intro hmem
          simp only [List.mem_cons, List.not_mem_nil, or_false] at hmem
          rcases hmem with rfl | rfl | rfl
          all_goals rcases hc with hc | hc <;> cases hc
      | .string ht =>
          simp only [List.cons_append, List.append_assoc, List.nil_append]
          rw [readValue?, ht.read r]
          rfl
      | .emptyArray hw =>
          have hskip := skipSpace_append hw (']' :: r)
          rw [skipSpace_cons rfl] at hskip
          simp [readValue?, hskip]
      | .array hitems =>
          have hread : readItems? steps (skipSpace (_ ++ ']' :: r)) = some (_, r) :=
            hitems.read (by simp at hlen; omega)
          obtain ⟨c, s, hs, hne⟩ := hitems.skip (']' :: r)
          rw [hs] at hread
          simp [readValue?, hs, hne, hread]
      | .emptyObject hw =>
          have hskip := skipSpace_append hw ('\x7d' :: r)
          rw [skipSpace_cons rfl] at hskip
          simp [readValue?, hskip]
      | .object hmembers =>
          have hread : readMembers? steps (skipSpace (_ ++ '\x7d' :: r)) = some (_, r) :=
            hmembers.read (by simp at hlen; omega)
          obtain ⟨s, hs⟩ := hmembers.skip ('\x7d' :: r)
          rw [hs] at hread
          simp [readValue?, hs, hread]

/-- The space before a value is passed over; that after it is left. -/
theorem Spaced.read {t : List Char} {v : Json} {steps : Nat} {r : List Char} :
    Spaced t v → 2 * t.length ≤ steps → Stops r →
    ∃ r', readValue? steps (skipSpace (t ++ r)) = some (v, r') ∧ skipSpace r' = skipSpace r
  | @Spaced.mk w t v w' hw ht hw', hlen, hr => by
    simp only [List.length_append] at hlen
    refine ⟨w' ++ r, ?_, skipSpace_append hw' r⟩
    have hskip : skipSpace (t ++ (w' ++ r)) = t ++ (w' ++ r) := by
      obtain ⟨c, s, hs, hc, -⟩ := ht.head
      rw [hs]
      exact skipSpace_cons hc _
    rw [List.append_assoc, List.append_assoc, skipSpace_append hw, hskip]
    exact ht.read (by omega) (hw'.stops hr)

theorem Items.read {t : List Char} {vs : List Json} {steps : Nat} {r : List Char} :
    Items t vs → 2 * t.length < steps →
    readItems? steps (skipSpace (t ++ ']' :: r)) = some (vs, r) := by
  intro h hlen
  cases steps with
  | zero => omega
  | succ steps =>
      match h with
      | .one ht =>
          obtain ⟨r', hv, hr'⟩ := ht.read (Nat.le_of_lt_succ hlen) (stops_bracket r)
          rw [skipSpace_cons rfl] at hr'
          simp [readItems?, hv, hr']
      | @Items.more t v ts vs ht hts =>
          simp only [List.length_append, List.length_cons] at hlen
          have hlt : 2 * t.length ≤ steps := by omega
          have hlts : 2 * ts.length < steps := by omega
          obtain ⟨r', hv, hr'⟩ := ht.read hlt (stops_comma (ts ++ ']' :: r))
          rw [skipSpace_cons rfl] at hr'
          have hrest := hts.read (r := r) hlts
          simp [readItems?, hv, hr', hrest]

theorem Member.read {t : List Char} {m : String × Json} {steps : Nat} {r : List Char} :
    Member t m → 2 * t.length ≤ steps → Stops r →
    ∃ r', readMember? steps (skipSpace (t ++ r)) = some (m, r') ∧ skipSpace r' = skipSpace r
  | @Member.mk w name s w' t v hw hname hcolon hv, hlen, hr => by
    cases steps with
    | zero => simp at hlen
    | succ steps =>
        simp only [List.length_append, List.length_cons] at hlen
        have hlv : 2 * t.length ≤ steps := by omega
        obtain ⟨r', hread, hr'⟩ := hv.read hlv hr
        refine ⟨r', ?_, hr'⟩
        have hstring := hname.read (w' ++ ':' :: (t ++ r))
        have hskip := skipSpace_append hcolon (':' :: (t ++ r))
        rw [skipSpace_cons rfl] at hskip
        rw [List.append_assoc, skipSpace_append hw, List.cons_append, skipSpace_cons rfl]
        simp [readMember?, hstring, hskip, hread]

theorem Members.read {t : List Char} {ms : List (String × Json)} {steps : Nat} {r : List Char} :
    Members t ms → 2 * t.length < steps →
    readMembers? steps (skipSpace (t ++ '\x7d' :: r)) = some (ms, r) := by
  intro h hlen
  cases steps with
  | zero => omega
  | succ steps =>
      match h with
      | .one ht =>
          obtain ⟨r', hv, hr'⟩ := ht.read (Nat.le_of_lt_succ hlen) (stops_brace r)
          rw [skipSpace_cons rfl] at hr'
          simp [readMembers?, hv, hr']
      | @Members.more t m ts ms ht hts =>
          simp only [List.length_append, List.length_cons] at hlen
          have hlt : 2 * t.length ≤ steps := by omega
          have hlts : 2 * ts.length < steps := by omega
          obtain ⟨r', hv, hr'⟩ := ht.read hlt (stops_comma (ts ++ '\x7d' :: r))
          rw [skipSpace_cons rfl] at hr'
          have hrest := hts.read (r := r) hlts
          simp [readMembers?, hv, hr', hrest]

end

theorem stops_nil : Stops [] := ⟨nofun, nofun, nofun, nofun⟩

theorem Number.unique {t : List Char} {q q' : ℚ} (h : Number t q) (h' : Number t q') : q = q' := by
  have hread := readNumber?_append h stops_nil
  rw [readNumber?_append h' stops_nil] at hread
  cases hread
  rfl

/-- The reader takes exactly the texts that denote a value, for that value. -/
theorem read?_eq_some_iff {s : List Char} {v : Json} : read? s = some v ↔ Spaced s v := by
  unfold read?
  constructor
  · intro h
    split at h
    · rename_i v' rest hread
      split at h
      · rename_i hend
        cases h
        obtain ⟨t, ht, hs⟩ := (readsOnly _).value hread
        obtain ⟨w, hw, hsplit⟩ := exists_blank_append_skipSpace s
        obtain ⟨w', hw', hrest⟩ := exists_blank_append_skipSpace rest
        rw [hsplit, hs, hrest, hend, List.append_nil]
        exact .mk hw ht hw'
      · cases h
    · cases h
  · intro h
    obtain ⟨r', hread, hr'⟩ := h.read (Nat.le_succ (2 * s.length)) stops_nil
    rw [List.append_nil] at hread
    have hend : skipSpace r' = [] := hr'
    simp only [hread, hend, if_true]

end JsonWriter.Json
