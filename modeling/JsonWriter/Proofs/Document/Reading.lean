import JsonWriter.Proofs.Document.Grammar

/-! The reader follows the language of documents. What it takes is spelled as the language has it,
and it takes what is spelled so as long as nothing occurs in it. -/
namespace JsonWriter.Document

open Json (Blank Chars Stops skipSpace_append skipSpace_cons exists_blank_append_skipSpace)

/-! Strings are refused for no other reason than that they are malformed. -/

theorem occurrence_of_lowSurrogate? {s : List Char} {refusal : Refusal}
    (h : lowSurrogate? s = .error refusal) : refusal.occurrence = .malformed := by
  unfold lowSurrogate? at h
  split at h
  · split at h
    · cases h
      rfl
    · cases h
  · cases h

theorem occurrence_of_readCode {s : List Char} {refusal : Refusal}
    (h : readCode s = .error refusal) : refusal.occurrence = .malformed := by
  unfold readCode at h
  split at h
  · split at h
    · cases h
      rfl
    · split at h
      · rcases bind_eq_error_cases h with hlow | ⟨found, -, hnext⟩
        · exact occurrence_of_lowSurrogate? hlow
        · cases found <;> cases hnext
      · cases h
  · cases h
    rfl

theorem occurrence_of_readChar {s : List Char} {refusal : Refusal}
    (h : readChar s = .error refusal) : refusal.occurrence = .malformed := by
  unfold readChar at h
  split at h
  · cases h
    rfl
  · cases h
  · cases h
    rfl
  · rename_i rest
    cases hcode : readCode rest with
    | ok found =>
        rw [hcode] at h
        cases h
    | error refusal' =>
        rw [hcode] at h
        cases h
        exact occurrence_of_readCode hcode
  · split at h
    · cases h
    · cases h
      rfl
  · split at h
    · cases h
      rfl
    · cases h

theorem occurrence_of_readChars {bound : Nat} {s : List Char} {refusal : Refusal}
    (h : readChars bound s = .error refusal) : refusal.occurrence = .malformed := by
  induction bound generalizing s with
  | zero =>
      cases h
      rfl
  | succ bound ih =>
      unfold readChars at h
      rcases bind_eq_error_cases h with hc | ⟨⟨c, rest⟩, -, hrest⟩
      · exact occurrence_of_readChar hc
      · cases c with
        | none => cases hrest
        | some c =>
            rcases bind_eq_error_cases hrest with hnext | ⟨_, -, hend⟩
            · exact ih hnext
            · cases hend

theorem occurrence_of_readString {s : List Char} {refusal : Refusal}
    (h : readString s = .error refusal) : refusal.occurrence = .malformed :=
  occurrence_of_readChars h

/-! What is read is spelled out. -/

/-- The step in which all kinds of parts are read, each from what fewer steps read. -/
structure ReadsOnly (steps : Nat) : Prop where
  value : ∀ {s v r}, readValue steps s = .ok (v, r) → ∃ t, Spells t v ∧ s = t ++ r
  items : ∀ {s vs r}, readItems steps s = .ok (vs, r) → ∃ t, Items t vs ∧ s = t ++ ']' :: r
  members : ∀ {s ms r}, readMembers steps s = .ok (ms, r) →
    ∃ t, Members t ms ∧ s = t ++ '\x7d' :: r

theorem ReadsOnly.value_succ {steps : Nat} (ih : ReadsOnly steps) {s r : List Char} {v : Value}
    (h : readValue (steps + 1) s = .ok (v, r)) : ∃ t, Spells t v ∧ s = t ++ r := by
  unfold readValue at h
  split at h
  · obtain ⟨⟨text, rest⟩, hstring, hend⟩ := exists_of_bind_eq_ok h
    cases hend
    obtain ⟨t, ht, rfl⟩ := readString_eq_ok_iff.1 hstring
    exact ⟨_, .string ht, by simp⟩
  · rename_i rest
    obtain ⟨w, hw, hrest⟩ := exists_blank_append_skipSpace rest
    split at h
    · rename_i hs
      cases h
      refine ⟨_, .emptyObject hw, ?_⟩
      rw [hrest, hs]
      simp
    · obtain ⟨⟨members, r'⟩, hmembers, hclose⟩ := exists_of_bind_eq_ok h
      obtain ⟨object, hobject, hend⟩ := exists_of_bind_eq_ok hclose
      cases hend
      obtain ⟨t, ht, hs⟩ := ih.members hmembers
      rw [(closeObject_eq_ok hobject).2]
      refine ⟨_, .object (ht.blank hw), ?_⟩
      rw [hrest, hs]
      simp
  · rename_i rest
    obtain ⟨w, hw, hrest⟩ := exists_blank_append_skipSpace rest
    split at h
    · rename_i hs
      cases h
      refine ⟨_, .emptyList hw, ?_⟩
      rw [hrest, hs]
      simp
    · obtain ⟨⟨items, r'⟩, hitems, hend⟩ := exists_of_bind_eq_ok h
      cases hend
      obtain ⟨t, ht, hs⟩ := ih.items hitems
      refine ⟨_, .list (ht.blank hw), ?_⟩
      rw [hrest, hs]
      simp
  · obtain ⟨t, ht, hs⟩ := atom_of_readScalar h
    exact ⟨t, .atom ht, hs⟩

theorem ReadsOnly.items_succ {steps : Nat} (ih : ReadsOnly steps) {s r : List Char}
    {vs : List Value} (h : readItems (steps + 1) s = .ok (vs, r)) :
    ∃ t, Items t vs ∧ s = t ++ ']' :: r := by
  unfold readItems at h
  obtain ⟨⟨item, rest⟩, hitem, hnext⟩ := exists_of_bind_eq_ok h
  obtain ⟨t, ht, hs₀⟩ := ih.value hitem
  obtain ⟨w, hw, hrest⟩ := exists_blank_append_skipSpace rest
  have hspaced : Item (t ++ w) item := .mk .nil ht hw
  dsimp only at hnext
  split at hnext
  · rename_i hs
    cases hnext
    refine ⟨_, .one hspaced, ?_⟩
    rw [hs₀, hrest, hs, List.append_assoc]
  · rename_i rest' hs
    obtain ⟨⟨items, r'⟩, hitems, hend⟩ := exists_of_bind_eq_ok hnext
    cases hend
    obtain ⟨ts, hts, hs'⟩ := ih.items hitems
    obtain ⟨w', hw', hrest'⟩ := exists_blank_append_skipSpace rest'
    refine ⟨_, .more hspaced (hts.blank hw'), ?_⟩
    rw [hs₀, hrest, hs, hrest', hs']
    simp
  · cases hnext

def readMembersAfter (steps : Nat) (member : String × Value) (rest : List Char) :
    Except Refusal (Parsed (List (String × Value))) :=
  match skipSpace rest with
  | '\x7d' :: rest => return ([member], rest)
  | ',' :: rest => do
    let (members, rest) ← readMembers steps (skipSpace rest)
    return (member :: members, rest)
  | _ => throw (.malformed .comma)

/-- Where the reading of an object does not end in a name, it goes on with a value. -/
theorem readMembers_cases (steps : Nat) (s : List Char) :
    (∃ refusal, readMembers (steps + 1) s = .error refusal ∧ refusal.occurrence = .malformed) ∨
      ∃ name text w w' rest, Chars name text ∧ Blank w ∧ Blank w' ∧
        s = '"' :: (name ++ '"' :: (w ++ ':' :: (w' ++ rest))) ∧
        readMembers (steps + 1) s = (do
          let (item, rest) ← readValue steps rest
          readMembersAfter steps (String.ofList text, item) rest) := by
  unfold readMembers
  split
  · rename_i rest
    cases hname : readString rest with
    | error refusal => exact .inl ⟨refusal, rfl, occurrence_of_readString hname⟩
    | ok found =>
        obtain ⟨text, rest'⟩ := found
        obtain ⟨name, hchars, rfl⟩ := readString_eq_ok_iff.1 hname
        obtain ⟨w, hw, hrest'⟩ := exists_blank_append_skipSpace rest'
        simp only [bind, Except.bind]
        split
        · rename_i after hcolon
          obtain ⟨w', hw', hafter⟩ := exists_blank_append_skipSpace after
          refine .inr ⟨name, text, w, w', _, hchars, hw, hw', ?_, rfl⟩
          rw [← hafter, ← hcolon, ← hrest']
        · exact .inl ⟨_, rfl, rfl⟩
  · exact .inl ⟨_, rfl, rfl⟩

theorem ReadsOnly.members_succ {steps : Nat} (ih : ReadsOnly steps) {s r : List Char}
    {ms : List (String × Value)} (h : readMembers (steps + 1) s = .ok (ms, r)) :
    ∃ t, Members t ms ∧ s = t ++ '\x7d' :: r := by
  rcases readMembers_cases steps s with ⟨refusal, herror, -⟩ |
    ⟨name, text, w, w', start, hname, hw, hw', rfl, heq⟩
  · rw [herror] at h
    cases h
  · rw [heq] at h
    obtain ⟨⟨item, rest⟩, hitem, hnext⟩ := exists_of_bind_eq_ok h
    obtain ⟨t, ht, rfl⟩ := ih.value hitem
    obtain ⟨u, hu, hrest⟩ := exists_blank_append_skipSpace rest
    have hmember := Member.mk .nil hname hw (.mk hw' ht hu)
    dsimp only [readMembersAfter] at hnext
    split at hnext
    · rename_i hs
      cases hnext
      refine ⟨_, .one hmember, ?_⟩
      rw [hrest, hs]
      simp
    · rename_i rest' hs
      obtain ⟨⟨members, r'⟩, hmembers, hend⟩ := exists_of_bind_eq_ok hnext
      cases hend
      obtain ⟨ts, hts, hs'⟩ := ih.members hmembers
      obtain ⟨u', hu', hrest'⟩ := exists_blank_append_skipSpace rest'
      refine ⟨_, .more hmember (hts.blank hu'), ?_⟩
      rw [hrest, hs, hrest', hs']
      simp
    · cases hnext

theorem readsOnly (steps : Nat) : ReadsOnly steps := by
  induction steps with
  | zero => exact ⟨nofun, nofun, nofun⟩
  | succ steps ih => exact ⟨ih.value_succ, ih.items_succ, ih.members_succ⟩

/-! What is spelled out is read. -/

theorem Spells.head {t : List Char} {v : Value} (h : Spells t v) :
    ∃ c s, t = c :: s ∧ isSpace c = false ∧ c ≠ ']' ∧ c ≠ '\ufeff' := by
  cases h with
  | atom h =>
      obtain ⟨c, s, rfl, hspace, hc⟩ := h.head
      refine ⟨c, s, rfl, hspace, ?_, ?_⟩ <;> rintro rfl <;> exact hc (by decide)
  | _ => exact ⟨_, _, rfl, rfl, by decide⟩

theorem Spells.skip {t : List Char} {v : Value} (h : Spells t v) (r : List Char) :
    skipSpace (t ++ r) = t ++ r := by
  obtain ⟨c, s, rfl, hc, -⟩ := h.head
  exact skipSpace_cons hc _

theorem Item.skip {t : List Char} {v : Value} (h : Item t v) (r : List Char) :
    ∃ c s, skipSpace (t ++ r) = c :: s ∧ c ≠ ']' := by
  cases h with
  | @mk w t v w' hw ht hw' =>
      obtain ⟨c, s, rfl, hc, hne, -⟩ := ht.head
      refine ⟨c, s ++ (w' ++ r), ?_, hne⟩
      rw [List.append_assoc, skipSpace_append hw, List.append_assoc]
      exact skipSpace_cons hc _

theorem Items.skip {t : List Char} {vs : List Value} (h : Items t vs) (r : List Char) :
    ∃ c s, skipSpace (t ++ r) = c :: s ∧ c ≠ ']' := by
  cases h with
  | one ht => exact ht.skip r
  | more ht hts =>
      rw [List.append_assoc]
      exact ht.skip _

theorem Member.skip {t : List Char} {m : String × Value} (h : Member t m) (r : List Char) :
    ∃ s, skipSpace (t ++ r) = '"' :: s := by
  cases h with
  | mk hw hname hcolon hv =>
      rw [List.append_assoc, skipSpace_append hw]
      exact ⟨_, skipSpace_cons rfl _⟩

theorem Members.skip {t : List Char} {ms : List (String × Value)} (h : Members t ms)
    (r : List Char) : ∃ s, skipSpace (t ++ r) = '"' :: s := by
  cases h with
  | one ht => exact ht.skip r
  | more ht hts =>
      rw [List.append_assoc]
      exact ht.skip _

/-- The name of a member is read, and its value is what is read next. -/
theorem readMembers_name {w name text w' : List Char} (hw : Blank w) (hname : Chars name text)
    (hcolon : Blank w') (steps : Nat) (rest : List Char) :
    readMembers (steps + 1) (skipSpace (w ++ '"' :: (name ++ '"' :: (w' ++ ':' :: rest)))) = (do
      let (item, rest) ← readValue steps (skipSpace rest)
      readMembersAfter steps (String.ofList text, item) rest) := by
  have hstring : readString (name ++ '"' :: (w' ++ ':' :: rest)) = .ok (text, w' ++ ':' :: rest) :=
    readString_eq_ok_iff.2 ⟨name, hname, rfl⟩
  have hskip : skipSpace (w' ++ ':' :: rest) = ':' :: rest := by
    rw [skipSpace_append hcolon, skipSpace_cons rfl]
  rw [skipSpace_append hw, skipSpace_cons rfl, readMembers]
  simp only [hstring, hskip, bind, Except.bind]
  rfl

theorem repeated?_eq_some_iff {seen names : List String} {name : String} :
    repeated? seen names = some name ↔ ∃ before after, names = before ++ name :: after ∧
      before.Nodup ∧ (∀ b ∈ before, b ∉ seen) ∧ (name ∈ before ∨ name ∈ seen) := by
  induction names generalizing seen with
  | nil => simp [repeated?]
  | cons first rest ih =>
      unfold repeated?
      split
      · rename_i hseen
        rw [List.contains_iff_mem] at hseen
        constructor
        · rintro ⟨⟩
          exact ⟨[], rest, rfl, List.nodup_nil, by simp, .inr hseen⟩
        · rintro ⟨before, after, heq, -, hnew, -⟩
          cases before with
          | nil =>
              cases heq
              rfl
          | cons b before =>
              cases heq
              exact absurd hseen (hnew _ List.mem_cons_self)
      · rename_i hnew
        rw [List.contains_iff_mem] at hnew
        rw [ih]
        constructor
        · rintro ⟨before, after, rfl, hnodup, hbefore, hname⟩
          have hfirst : first ∉ before := fun h => hbefore _ h List.mem_cons_self
          refine ⟨first :: before, after, rfl, List.nodup_cons.2 ⟨hfirst, hnodup⟩, ?_, ?_⟩
          · rintro b (_ | ⟨_, hb⟩)
            · exact hnew
            · exact fun h => hbefore b hb (List.mem_cons_of_mem _ h)
          · simp only [List.mem_cons] at hname ⊢
            tauto
        · rintro ⟨before, after, heq, hnodup, hbefore, hname⟩
          cases before with
          | nil =>
              cases heq
              simp [hnew] at hname
          | cons b before =>
              cases heq
              obtain ⟨hfirst, hnodup⟩ := List.nodup_cons.1 hnodup
              refine ⟨before, after, rfl, hnodup, ?_, ?_⟩
              · intro b hb hmem
                rcases List.mem_cons.1 hmem with rfl | hmem
                · exact hfirst hb
                · exact hbefore b (List.mem_cons_of_mem _ hb) hmem
              · simp only [List.mem_cons] at hname ⊢
                tauto

theorem repeated?_nil_eq_some_iff {names : List String} {name : String} :
    repeated? [] names = some name ↔ FirstRepeated names name := by
  rw [repeated?_eq_some_iff]
  simp [FirstRepeated]

theorem closeObject_eq_error_iff {ms : List (String × Value)} {refusal : Refusal} :
    closeObject ms = .error refusal ↔
      ∃ name, refusal = .givenTwice name ∧ FirstRepeated (ms.map (·.1)) name := by
  unfold closeObject
  constructor
  · intro h
    split at h
    · rename_i name hname
      cases h
      exact ⟨name, rfl, repeated?_nil_eq_some_iff.1 hname⟩
    · cases h
  · rintro ⟨name, rfl, hname⟩
    rw [repeated?_nil_eq_some_iff.2 hname]

mutual

theorem Spells.read {t : List Char} {v : Value} {steps : Nat} {r : List Char} :
    Spells t v → 2 * t.length ≤ steps → Stops r → Quiet AtStart (t ++ r) (t.length + 1) →
    readValue steps (t ++ r) = .ok (v, r) := by
  intro h hlen hr hquiet
  cases steps with
  | zero =>
      obtain ⟨c, s, rfl, -⟩ := h.head
      simp at hlen
  | succ steps =>
      -- A part is at least one character shorter than its whole, so two steps are left for it.
      match h with
      | .atom ht =>
          have hread := ht.read hr hquiet
          obtain ⟨c, s, rfl, -, hc⟩ := ht.head
          exact (readValue_of_readScalar hc).trans hread
      | @Spells.string t text ht =>
          have hstring : readString (t ++ ['"'] ++ r) = .ok (text, r) :=
            readString_eq_ok_iff.2 ⟨t, ht, by simp⟩
          rw [List.cons_append, readValue, hstring]
          rfl
      | .emptyList hw =>
          have hskip := skipSpace_append hw (']' :: r)
          rw [skipSpace_cons rfl] at hskip
          simp [readValue, hskip]
      | @Spells.list t vs hitems =>
          have hinner : Quiet ItemLead (t ++ ']' :: r) (t.length + 1) := by
            refine Quiet.enter (m := t.length + 3) .list ?_ (by omega)
            simpa using hquiet
          have hread : readItems steps (skipSpace (t ++ ']' :: r)) = .ok (vs, r) :=
            hitems.read (by simp at hlen; omega) hinner
          obtain ⟨c, s, hs, hne⟩ := hitems.skip (']' :: r)
          rw [hs] at hread
          simp [readValue, hs, hne, hread, bind, Except.bind, pure, Except.pure]
      | .emptyObject hw =>
          have hskip := skipSpace_append hw ('\x7d' :: r)
          rw [skipSpace_cons rfl] at hskip
          simp [readValue, hskip]
      | @Spells.object t ms hmembers =>
          have hinner : Quiet MemberLead (t ++ '\x7d' :: r) (t.length + 1) := by
            refine Quiet.enter (m := t.length + 3) .object ?_ (by omega)
            simpa using hquiet
          have hread : readMembers steps (skipSpace (t ++ '\x7d' :: r)) = .ok (ms, r) :=
            hmembers.read (by simp at hlen; omega) hinner
          obtain ⟨s, hs⟩ := hmembers.skip ('\x7d' :: r)
          rw [hs] at hread
          cases hclose : closeObject ms with
          | ok v =>
              obtain ⟨-, rfl⟩ := closeObject_eq_ok hclose
              simp [readValue, hs, hread, hclose, bind, Except.bind, pure, Except.pure]
              rfl
          | error refusal =>
              obtain ⟨name, -, hname⟩ := closeObject_eq_error_iff.1 hclose
              have hearly := hquiet _ _ (Offends.givenTwice r hmembers hname).occurs
              exact absurd hearly (Nat.not_succ_le_self _)

/-- The space before a value is passed over; that after it is left. -/
theorem Item.read {t : List Char} {v : Value} {steps : Nat} {r : List Char} :
    Item t v → 2 * t.length ≤ steps → Stops r → Quiet Blank (t ++ r) (t.length + 1) →
    ∃ r', readValue steps (skipSpace (t ++ r)) = .ok (v, r') ∧ skipSpace r' = skipSpace r
  | @Item.mk w t v w' hw ht hw', hlen, hr, hquiet => by
    simp only [List.length_append] at hlen
    have hinner : Quiet AtStart (t ++ (w' ++ r)) (t.length + 1) := by
      refine Quiet.skip hw ?_ (m := (w ++ (t ++ w')).length + 1) (by simp; omega)
      simpa using hquiet
    refine ⟨w' ++ r, ?_, skipSpace_append hw' r⟩
    rw [List.append_assoc, List.append_assoc, skipSpace_append hw, ht.skip]
    exact ht.read (by omega) (hw'.stops hr) hinner

theorem Items.read {t : List Char} {vs : List Value} {steps : Nat} {r : List Char} :
    Items t vs → 2 * t.length < steps → Quiet ItemLead (t ++ ']' :: r) (t.length + 1) →
    readItems steps (skipSpace (t ++ ']' :: r)) = .ok (vs, r) := by
  intro h hlen hquiet
  cases steps with
  | zero => omega
  | succ steps =>
      match h with
      | .one ht =>
          have hlt := Nat.le_of_lt_succ hlen
          obtain ⟨r', hv, hr'⟩ := ht.read hlt (Json.stops_bracket r) hquiet.item
          rw [skipSpace_cons rfl] at hr'
          simp [readItems, hv, hr', bind, Except.bind, pure, Except.pure]
      | @Items.more t v ts vs ht hts =>
          simp only [List.length_append, List.length_cons] at hlen
          simp only [List.append_assoc, List.cons_append] at hquiet ⊢
          have hitem := hquiet.item.mono (show t.length + 1 ≤ _ by simp)
          have hrest : Quiet ItemLead (ts ++ ']' :: r) (ts.length + 1) := by
            refine hquiet.next ht ?_
            simp
            omega
          have hlt : 2 * t.length ≤ steps := by omega
          obtain ⟨r', hv, hr'⟩ := ht.read hlt (Json.stops_comma _) hitem
          rw [skipSpace_cons rfl] at hr'
          have hread : readItems steps _ = .ok (vs, r) := hts.read (by omega) hrest
          simp [readItems, hv, hr', hread, bind, Except.bind, pure, Except.pure]

/-- The value of a member is read, and what follows is what the reading goes on with. -/
theorem Member.read {t : List Char} {m : String × Value} {steps : Nat} {r : List Char} :
    Member t m → 2 * t.length ≤ steps → Stops r → Quiet MemberLead (t ++ r) (t.length + 1) →
    readMembers (steps + 1) (skipSpace (t ++ r)) = readMembersAfter steps m r
  | @Member.mk w name text w' t v hw hname hcolon hv, hlen, hr, hquiet => by
    simp only [List.length_append, List.length_cons] at hlen
    simp only [List.append_assoc, List.cons_append] at hquiet ⊢
    have hvalue : Quiet Blank (t ++ r) (t.length + 1) := by
      refine hquiet.member hw hname hcolon ?_
      simp
      omega
    have hlt : 2 * t.length ≤ steps := by omega
    obtain ⟨r', hread, hr'⟩ := hv.read hlt hr hvalue
    rw [readMembers_name hw hname hcolon, hread]
    simp only [bind, Except.bind, readMembersAfter, hr']

theorem Members.read {t : List Char} {ms : List (String × Value)} {steps : Nat} {r : List Char} :
    Members t ms → 2 * t.length < steps → Quiet MemberLead (t ++ '\x7d' :: r) (t.length + 1) →
    readMembers steps (skipSpace (t ++ '\x7d' :: r)) = .ok (ms, r) := by
  intro h hlen hquiet
  cases steps with
  | zero => omega
  | succ steps =>
      match h with
      | .one ht =>
          rw [ht.read (Nat.le_of_lt_succ hlen) (Json.stops_brace r) hquiet]
          simp [readMembersAfter, skipSpace_cons, isSpace, pure, Except.pure]
      | @Members.more t m ts ms ht hts =>
          simp only [List.length_append, List.length_cons] at hlen
          simp only [List.append_assoc, List.cons_append] at hquiet ⊢
          have hmember := hquiet.mono (show t.length + 1 ≤ _ by simp)
          have hrest : Quiet MemberLead (ts ++ '\x7d' :: r) (ts.length + 1) := by
            refine hquiet.nextMember ht ?_
            simp
            omega
          have hread : readMembers steps _ = .ok (ms, r) := hts.read (by omega) hrest
          rw [ht.read (by omega) (Json.stops_comma _) hmember]
          simp [readMembersAfter, skipSpace_cons, isSpace, hread, bind, Except.bind, pure,
            Except.pure]

end

end JsonWriter.Document
