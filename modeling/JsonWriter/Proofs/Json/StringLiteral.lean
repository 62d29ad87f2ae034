import JsonWriter.Proofs.Json.Reader

/-! The reader takes string literals as the grammar has them, up to the quote that closes them. -/
namespace JsonWriter.Json

open Document (quad? hexValue? isHighSurrogate isLowSurrogate)

theorem lowEscape?_eq_some_iff {s r : List Char} {n : Nat} :
    lowEscape? s = some (n, r) ↔ ∃ a b c d, s = ['\\', 'u', a, b, c, d] ++ r ∧
      quad? a b c d = some n ∧ isLowSurrogate n = true := by
  constructor
  · intro h
    unfold lowEscape? at h
    split at h
    · rename_i a b c d rest
      obtain ⟨m, hm, heq⟩ := Option.map_eq_some_iff.1 h
      cases heq
      obtain ⟨hq, hl⟩ := Option.filter_eq_some_iff.1 hm
      exact ⟨a, b, c, d, rfl, hq, hl⟩
    · cases h
  · rintro ⟨a, b, c, d, rfl, hq, hl⟩
    simp [lowEscape?, hq, hl]

theorem quad?_not_mem {x a b c d : Char} {n : Nat} (hx : hexValue? x = none)
    (h : quad? a b c d = some n) : x ∉ [a, b, c, d] := by
  intro hmem
  unfold quad? at h
  simp only [List.mem_cons, List.not_mem_nil, or_false] at hmem
  rcases hmem with rfl | rfl | rfl | rfl
  all_goals simp [hx] at h

theorem lowEscape?_append {t t' : List Char} {n : Nat} (h : lowEscape? t = some (n, t'))
    (r : List Char) : lowEscape? (t ++ r) = some (n, t' ++ r) := by
  obtain ⟨a, b, c, d, rfl, hq, hl⟩ := lowEscape?_eq_some_iff.1 h
  exact lowEscape?_eq_some_iff.2 ⟨a, b, c, d, List.append_assoc .., hq, hl⟩

/-- An escape does not reach beyond the closing quote. -/
theorem exists_of_lowEscape?_append {t r rest : List Char} {n : Nat}
    (h : lowEscape? (t ++ '"' :: r) = some (n, rest)) :
    ∃ t', lowEscape? t = some (n, t') ∧ rest = t' ++ '"' :: r := by
  obtain ⟨a, b, c, d, heq, hq, hl⟩ := lowEscape?_eq_some_iff.1 h
  rcases List.append_eq_append_iff.1 heq with ⟨u, hu, hr⟩ | ⟨u, rfl, rfl⟩
  · cases u with
    | nil =>
        rw [List.append_nil] at hu
        exact ⟨[], lowEscape?_eq_some_iff.2 ⟨a, b, c, d, by simpa using hu.symm, hq, hl⟩, hr.symm⟩
    | cons x u =>
        have hx : x = '"' := (List.cons.inj hr).1.symm
        have hmem : '"' ∈ ['\\', 'u', a, b, c, d] := by
          rw [hu, hx]
          exact List.mem_append_right _ List.mem_cons_self
        have := quad?_not_mem (x := '"') (by decide) hq
        simp only [List.mem_cons, List.not_mem_nil, or_false] at hmem this
        rcases hmem with h | h | h
        · cases h
        · cases h
        · exact absurd h this
  · exact ⟨u, lowEscape?_eq_some_iff.2 ⟨a, b, c, d, rfl, hq, hl⟩, rfl⟩

theorem eq_of_readChar?_eq_none {s r : List Char} (h : readChar? s = some (none, r)) :
    s = '"' :: r := by
  unfold readChar? at h
  split at h
  · cases h
  · split at h
    · rename_i hc
      cases h
      rw [hc]
    · split at h
      · simp at h
      · split at h <;> cases h

theorem chars_of_readChar? {s t text r : List Char} {c : Char}
    (h : readChar? s = some (some c, t ++ '"' :: r)) (ht : Chars t text) :
    ∃ u, Chars u (c :: text) ∧ s = u ++ '"' :: r := by
  unfold readChar? at h
  split at h
  · cases h
  · rename_i first rest
    split at h
    · cases h
    · rename_i hquote
      split at h
      · rename_i hslash
        subst hslash
        obtain ⟨⟨c', rest'⟩, he, heq⟩ := Option.map_eq_some_iff.1 h
        cases heq
        unfold readEscape? at he
        split at he
        · rename_i a b c d rest
          obtain ⟨n, hq, hn⟩ := Option.map_eq_some_iff.1 he
          split at hn
          · rename_i hhigh
            split at hn
            · rename_i low rest' hlow
              obtain ⟨rfl, rfl⟩ := Prod.mk.inj hn
              obtain ⟨e, f, g, k, rfl, hq', hl⟩ := lowEscape?_eq_some_iff.1 hlow
              have hpair : lowEscape? (['\\', 'u', e, f, g, k] ++ t) = some (low, t) :=
                lowEscape?_eq_some_iff.2 ⟨e, f, g, k, rfl, hq', hl⟩
              exact ⟨_, .pair hq hhigh hpair ht, rfl⟩
            · rename_i hlow
              cases hn
              refine ⟨_, .code hq (fun _ => ?_) ht, rfl⟩
              cases hl : lowEscape? t with
              | none => rfl
              | some p => exact absurd (lowEscape?_append hl _) (by rw [hlow]; nofun)
          · rename_i hhigh
            cases hn
            exact ⟨_, .code hq (fun h => absurd h hhigh) ht, rfl⟩
        · rename_i letter rest _
          obtain ⟨c', hc, heq⟩ := Option.map_eq_some_iff.1 he
          cases heq
          exact ⟨_, .short hc ht, rfl⟩
        · cases he
      · rename_i hslash
        split at h
        · cases h
        · rename_i hspace
          cases h
          exact ⟨_, .plain (Nat.not_lt.1 hspace) hquote hslash ht, rfl⟩

theorem chars_of_readChars? {bound : Nat} {s text r : List Char}
    (h : readChars? bound s = some (text, r)) : ∃ t, Chars t text ∧ s = t ++ '"' :: r := by
  induction bound generalizing s text with
  | zero => cases h
  | succ bound ih =>
      unfold readChars? at h
      split at h
      · cases h
      · rename_i hc
        cases h
        exact ⟨[], .nil, eq_of_readChar?_eq_none hc⟩
      · rename_i c rest hc
        obtain ⟨⟨text', r'⟩, hrest, heq⟩ := Option.map_eq_some_iff.1 h
        cases heq
        obtain ⟨t, ht, rfl⟩ := ih hrest
        exact chars_of_readChar? hc ht

theorem readChar?_append {u text : List Char} (h : Chars u text) (r : List Char) :
    (u = [] ∧ text = []) ∨ ∃ c t rest, text = c :: t ∧ Chars rest t ∧ rest.length < u.length ∧
      readChar? (u ++ '"' :: r) = some (some c, rest ++ '"' :: r) := by
  cases h with
  | nil => exact .inl ⟨rfl, rfl⟩
  | @plain c t s hspace hquote hslash ht =>
      refine .inr ⟨c, s, t, rfl, ht, Nat.lt_succ_self _, ?_⟩
      have hspace := Nat.not_lt.2 hspace
      simp [readChar?, hquote, hslash, hspace]
  | @short letter c t s hc ht =>
      refine .inr ⟨c, s, t, rfl, ht, by simp, ?_⟩
      have hu : letter ≠ 'u' := by
        rintro rfl
        cases hc
      have he : readEscape? (letter :: (t ++ '"' :: r)) = some (c, t ++ '"' :: r) := by
        unfold readEscape?
        split
        · rename_i heq
          exact absurd (List.cons.inj heq).1 hu
        · rename_i heq
          cases heq
          rw [hc]
          rfl
        · rename_i heq
          cases heq
      simp [readChar?, he]
  | @code a b c d n t s hq hlone ht =>
      refine .inr ⟨_, s, t, rfl, ht, by simp; omega, ?_⟩
      by_cases hhigh : isHighSurrogate n = true
      · have hnone : lowEscape? (t ++ '"' :: r) = none := by
          cases hl : lowEscape? (t ++ '"' :: r) with
          | none => rfl
          | some p =>
              obtain ⟨t', ht', -⟩ := exists_of_lowEscape?_append hl
              rw [hlone hhigh] at ht'
              cases ht'
        simp [readChar?, readEscape?, hq, hnone]
      · simp [readChar?, readEscape?, hq, hhigh]
  | @pair a b c d high low t rest s hq hhigh hlow hrest =>
      refine .inr ⟨_, s, rest, rfl, hrest, ?_, ?_⟩
      · obtain ⟨e, f, g, k, rfl, -, -⟩ := lowEscape?_eq_some_iff.1 hlow
        simp
        omega
      · simp [readChar?, readEscape?, hq, hhigh, lowEscape?_append hlow]

theorem readChars?_append {bound : Nat} {t text : List Char} (h : Chars t text)
    (hb : t.length < bound) (r : List Char) :
    readChars? bound (t ++ '"' :: r) = some (text, r) := by
  induction bound generalizing t text with
  | zero => exact absurd hb (Nat.not_lt_zero _)
  | succ bound ih =>
      rcases readChar?_append h r with ⟨rfl, rfl⟩ | ⟨c, s, rest, rfl, hrest, hlen, hc⟩
      · rfl
      · unfold readChars?
        rw [hc]
        dsimp only
        rw [ih hrest (by omega)]
        rfl

theorem Chars.read {t text : List Char} (h : Chars t text) (r : List Char) :
    readString? (t ++ '"' :: r) = some (text, r) := readChars?_append h (by simp) r

theorem Chars.unique {t s s' : List Char} (h : Chars t s) (h' : Chars t s') : s = s' := by
  have hread := h.read []
  rw [h'.read []] at hread
  cases hread
  rfl

/-- Exactly the literals are read, each up to the quote that closes it. -/
theorem readString?_eq_some_iff {s text r : List Char} :
    readString? s = some (text, r) ↔ ∃ t, Chars t text ∧ s = t ++ '"' :: r := by
  constructor
  · exact chars_of_readChars?
  · rintro ⟨t, ht, rfl⟩
    exact ht.read r

end JsonWriter.Json
