import JsonWriter.Proofs.Document.Reading

/-! What the reader of documents reports is what occurs first in the text. -/
namespace JsonWriter.Document

open Json (Blank skipSpace_append skipSpace_cons exists_blank_append_skipSpace)

/-! What is reported has occurred. -/

/-- The step in which all kinds of parts report only what has occurred, each from what fewer steps
report. -/
structure Reports (steps : Nat) : Prop where
  value : ∀ {s refusal}, readValue steps s = .error refusal → refusal.occurrence ≠ .malformed →
    ∃ p, Occurs AtStart s p refusal.occurrence
  items : ∀ {s refusal}, readItems steps s = .error refusal → refusal.occurrence ≠ .malformed →
    ∃ p, Occurs ItemLead s p refusal.occurrence
  members : ∀ {s refusal}, readMembers steps s = .error refusal →
    refusal.occurrence ≠ .malformed → ∃ p, Occurs MemberLead s p refusal.occurrence

theorem Reports.value_succ {steps : Nat} (ih : Reports steps) {s : List Char} {refusal : Refusal}
    (h : readValue (steps + 1) s = .error refusal) (hvalid : refusal.occurrence ≠ .malformed) :
    ∃ p, Occurs AtStart s p refusal.occurrence := by
  unfold readValue at h
  split at h
  · rcases bind_eq_error_cases h with hstring | ⟨_, -, hend⟩
    · exact absurd (occurrence_of_readString hstring) hvalid
    · cases hend
  · rename_i rest
    obtain ⟨w, hw, hrest⟩ := exists_blank_append_skipSpace rest
    split at h
    · cases h
    · rw [hrest]
      rcases bind_eq_error_cases h with hmembers | ⟨⟨members, r⟩, hmembers, hclose⟩
      · obtain ⟨p, hp⟩ := ih.members hmembers hvalid
        exact ⟨_, (hp.append fun _ hl => hl.blank hw).enter .object⟩
      · obtain ⟨t, ht, hs⟩ := (readsOnly steps).members hmembers
        rcases bind_eq_error_cases hclose with herror | ⟨_, -, hend⟩
        · obtain ⟨name, rfl, hname⟩ := closeObject_eq_error_iff.1 herror
          rw [hs]
          have hoccurs := (Offends.givenTwice r (ht.blank hw) hname).occurs
          exact ⟨_, by simpa [Refusal.occurrence] using hoccurs⟩
        · cases hend
  · rename_i rest
    obtain ⟨w, hw, hrest⟩ := exists_blank_append_skipSpace rest
    split at h
    · cases h
    · rw [hrest]
      rcases bind_eq_error_cases h with hitems | ⟨_, -, hend⟩
      · obtain ⟨p, hp⟩ := ih.items hitems hvalid
        exact ⟨_, (hp.append fun _ hl => hl.blank hw).enter .list⟩
      · cases hend
  · obtain ⟨t, r, ht, rfl⟩ := offends_of_readScalar h hvalid
    exact ⟨_, ht.occurs⟩

theorem Reports.items_succ {steps : Nat} (ih : Reports steps) {s : List Char} {refusal : Refusal}
    (h : readItems (steps + 1) s = .error refusal) (hvalid : refusal.occurrence ≠ .malformed) :
    ∃ p, Occurs ItemLead s p refusal.occurrence := by
  unfold readItems at h
  rcases bind_eq_error_cases h with hitem | ⟨⟨item, rest⟩, hitem, hnext⟩
  · obtain ⟨p, hp⟩ := ih.value hitem hvalid
    exact ⟨p, hp.imp fun l hl => by rw [hl]; exact .first .nil⟩
  · obtain ⟨t, ht, rfl⟩ := (readsOnly steps).value hitem
    obtain ⟨w, hw, hrest⟩ := exists_blank_append_skipSpace rest
    dsimp only at hnext
    split at hnext
    · cases hnext
    · rename_i rest' hs
      obtain ⟨w', hw', hrest'⟩ := exists_blank_append_skipSpace rest'
      rcases bind_eq_error_cases hnext with hitems | ⟨_, -, hend⟩
      · obtain ⟨p, hp⟩ := ih.items hitems hvalid
        have hitem : Item (t ++ w) item := .mk .nil ht hw
        have hafter := (hp.append fun _ hl => hl.blank hw').next hitem
        rw [hrest, hs, hrest']
        exact ⟨_, by simpa using hafter⟩
      · cases hend
    · cases hnext
      exact absurd rfl hvalid

theorem Reports.members_succ {steps : Nat} (ih : Reports steps) {s : List Char}
    {refusal : Refusal} (h : readMembers (steps + 1) s = .error refusal)
    (hvalid : refusal.occurrence ≠ .malformed) :
    ∃ p, Occurs MemberLead s p refusal.occurrence := by
  rcases readMembers_cases steps s with ⟨refusal', herror, hmalformed⟩ |
    ⟨name, text, w, w', start, hname, hw, hw', rfl, heq⟩
  · rw [herror] at h
    cases h
    exact absurd hmalformed hvalid
  · rw [heq] at h
    rcases bind_eq_error_cases h with hitem | ⟨⟨item, rest⟩, hitem, hnext⟩
    · obtain ⟨p, hp⟩ := ih.value hitem hvalid
      exact ⟨_, (hp.skip hw').member .nil hname hw⟩
    · obtain ⟨t, ht, rfl⟩ := (readsOnly steps).value hitem
      obtain ⟨u, hu, hrest⟩ := exists_blank_append_skipSpace rest
      have hmember := Member.mk .nil hname hw (.mk hw' ht hu)
      dsimp only [readMembersAfter] at hnext
      split at hnext
      · cases hnext
      · rename_i rest' hs
        obtain ⟨u', hu', hrest'⟩ := exists_blank_append_skipSpace rest'
        rcases bind_eq_error_cases hnext with hmembers | ⟨_, -, hend⟩
        · obtain ⟨p, hp⟩ := ih.members hmembers hvalid
          have hafter := (hp.append fun _ hl => hl.blank hu').nextMember hmember
          rw [hrest, hs, hrest']
          exact ⟨_, by simpa using hafter⟩
        · cases hend
      · cases hnext
        exact absurd rfl hvalid

theorem reports (steps : Nat) : Reports steps := by
  induction steps with
  | zero =>
      refine ⟨?_, ?_, ?_⟩ <;> intro s refusal h hvalid <;> cases h <;> exact absurd rfl hvalid
  | succ steps ih => exact ⟨ih.value_succ, ih.items_succ, ih.members_succ⟩

/-! What occurs is reported, unless something occurs before it. -/

def Refused {α : Type} (o : Occurrence) (result : Except Refusal α) : Prop :=
  ∃ refusal, result = .error refusal ∧ refusal.occurrence = o

theorem Refused.bind {α β : Type} {o : Occurrence} {result : Except Refusal α}
    {f : α → Except Refusal β} (h : Refused o result) : Refused o (result >>= f) := by
  obtain ⟨refusal, rfl, ho⟩ := h
  exact ⟨refusal, rfl, ho⟩

section Refusals

variable {steps k : Nat} {t r l u x : List Char} {o : Occurrence}

theorem Offends.refused (h : Offends t r o) (hsteps : 2 * t.length ≤ steps)
    (hquiet : Quiet AtStart (t ++ r) t.length) : Refused o (readValue steps (t ++ r)) := by
  cases steps with
  | zero =>
      obtain ⟨v, hv⟩ := h.spells
      obtain ⟨c, s, rfl, -⟩ := hv.head
      simp at hsteps
  | succ steps =>
      cases h with
      | @givenTwice t ms name _ hmembers hname =>
          have hinner : Quiet MemberLead (t ++ '\x7d' :: r) (t.length + 1) := by
            refine Quiet.enter (m := t.length + 2) .object ?_ (by omega)
            simpa using hquiet
          have hread : readMembers steps (skipSpace (t ++ '\x7d' :: r)) = .ok (ms, r) :=
            hmembers.read (by simp at hsteps; omega) hinner
          obtain ⟨s, hs⟩ := hmembers.skip ('\x7d' :: r)
          rw [hs] at hread
          have hclose := closeObject_eq_error_iff.2 ⟨name, rfl, hname⟩
          refine ⟨.givenTwice name, ?_, rfl⟩
          simp [readValue, hs, hread, hclose, bind, Except.bind]
      | @numeralTooLong negative t _ ht hlong hends =>
          refine ⟨.numeralTooLong t.length, ?_, rfl⟩
          rw [readValue_integer steps negative ht hends, if_pos hlong]

/-- A text that is refused as a value, whatever comes before it, as long as nothing occurs in it
before the end of its first characters. -/
structure RefusedValue (x : List Char) (k : Nat) (o : Occurrence) : Prop where
  head : ∃ c s, x = c :: s ∧ isSpace c = false ∧ c ≠ ']'
  pos : 0 < k
  refused : ∀ {steps}, 2 * k ≤ steps → Quiet AtStart x k → Refused o (readValue steps x)

theorem RefusedValue.skip (h : RefusedValue x k o) {w : List Char} (hw : Blank w) :
    skipSpace (w ++ x) = x := by
  obtain ⟨c, s, rfl, hc, -⟩ := h.head
  rw [skipSpace_append hw, skipSpace_cons hc]

theorem ItemLead.refused (hl : ItemLead l) (h : RefusedValue x k o)
    (hsteps : 2 * (l.length + k) < steps) (hquiet : Quiet ItemLead (l ++ x) (l.length + k)) :
    Refused o (readItems steps (skipSpace (l ++ x))) := by
  induction hl generalizing steps with
  | first hw =>
      cases steps with
      | zero => exact absurd hsteps (Nat.not_lt_zero _)
      | succ steps =>
          rw [h.skip hw, readItems]
          exact (h.refused (by omega) (hquiet.item.skip hw (Nat.le_refl _))).bind
  | @next t v l ht _ ih =>
      cases steps with
      | zero => exact absurd hsteps (Nat.not_lt_zero _)
      | succ steps =>
          simp only [List.length_append, List.length_cons] at hsteps hquiet
          simp only [List.append_assoc, List.cons_append] at hquiet ⊢
          have hlt : 2 * t.length ≤ steps := by omega
          have hitem := hquiet.item.mono (show t.length + 1 ≤ _ by omega)
          obtain ⟨r', hv, hr'⟩ := ht.read hlt (Json.stops_comma (l ++ x)) hitem
          rw [skipSpace_cons rfl] at hr'
          have hrest : Refused o (readItems steps (skipSpace (l ++ x))) :=
            ih (by omega) (hquiet.next ht (by omega))
          obtain ⟨refusal, hrefused, ho⟩ := hrest
          refine ⟨refusal, ?_, ho⟩
          simp [readItems, hv, hr', hrefused, bind, Except.bind]

theorem MemberLead.refused (hl : MemberLead l) (h : RefusedValue x k o)
    (hsteps : 2 * (l.length + k) < steps) (hquiet : Quiet MemberLead (l ++ x) (l.length + k)) :
    Refused o (readMembers steps (skipSpace (l ++ x))) := by
  induction hl generalizing steps with
  | @first w name text w' u hw hname hcolon hu =>
      cases steps with
      | zero => exact absurd hsteps (Nat.not_lt_zero _)
      | succ steps =>
          simp only [List.length_append, List.length_cons] at hsteps hquiet
          simp only [List.append_assoc, List.cons_append] at hquiet ⊢
          have hvalue : Quiet Blank (u ++ x) (u.length + k) :=
            hquiet.member hw hname hcolon (by omega)
          rw [readMembers_name hw hname hcolon, h.skip hu]
          exact (h.refused (by omega) (hvalue.skip hu (Nat.le_refl _))).bind
  | @next t m l ht _ ih =>
      cases steps with
      | zero => exact absurd hsteps (Nat.not_lt_zero _)
      | succ steps =>
          simp only [List.length_append, List.length_cons] at hsteps hquiet
          simp only [List.append_assoc, List.cons_append] at hquiet ⊢
          have hlt : 2 * t.length ≤ steps := by omega
          have hmember := hquiet.mono (show t.length + 1 ≤ _ by omega)
          have hrest : Refused o (readMembers steps (skipSpace (l ++ x))) :=
            ih (by omega) (hquiet.nextMember ht (by omega))
          rw [ht.read hlt (Json.stops_comma (l ++ x)) hmember]
          unfold readMembersAfter
          rw [skipSpace_cons rfl]
          exact hrest.bind

theorem ItemLead.skip (hl : ItemLead l) (h : RefusedValue x k o) :
    ∃ c s, skipSpace (l ++ x) = c :: s ∧ c ≠ ']' := by
  cases hl with
  | first hw =>
      obtain ⟨c, s, hx, -, hc⟩ := h.head
      exact ⟨c, s, (h.skip hw).trans hx, hc⟩
  | next ht hl =>
      rw [List.append_assoc]
      exact ht.skip _

theorem MemberLead.skip (hl : MemberLead l) : ∃ s, skipSpace (l ++ x) = '"' :: s := by
  cases hl with
  | first hw hname hcolon hu =>
      rw [List.append_assoc, skipSpace_append hw]
      exact ⟨_, skipSpace_cons rfl _⟩
  | next ht hl =>
      rw [List.append_assoc]
      exact ht.skip _

/-- What is wrong with a value is what the outermost value is refused for. -/
theorem Within.refused (hu : Within u) (h : Offends t r o) :
    RefusedValue (u ++ (t ++ r)) (u.length + t.length) o := by
  induction hu with
  | here =>
      obtain ⟨v, hv⟩ := h.spells
      obtain ⟨c, s, rfl, hspace, hc, -⟩ := hv.head
      refine ⟨⟨c, s ++ r, rfl, hspace, hc⟩, by simp, fun hsteps hquiet => ?_⟩
      simp only [List.length_nil, Nat.zero_add] at hsteps hquiet
      exact h.refused hsteps hquiet
  | @list l u hl _ ih =>
      refine ⟨⟨'[', _, rfl, rfl, by decide⟩, by simp, fun {steps} hsteps hquiet => ?_⟩
      cases steps with
      | zero => simp at hsteps
      | succ steps =>
          simp only [List.length_append, List.length_cons] at hsteps hquiet
          simp only [List.append_assoc, List.cons_append] at hquiet ⊢
          have hitems : Refused o (readItems steps (skipSpace (l ++ (u ++ (t ++ r))))) :=
            hl.refused ih (by omega) (hquiet.enter .list (by omega))
          obtain ⟨c, s, hs, hc⟩ := hl.skip ih
          rw [hs] at hitems
          obtain ⟨refusal, hrefused, ho⟩ := hitems
          refine ⟨refusal, ?_, ho⟩
          simp [readValue, hs, hc, hrefused, Functor.map, Except.map]
  | @object l u hl _ ih =>
      refine ⟨⟨'\x7b', _, rfl, rfl, by decide⟩, by simp, fun {steps} hsteps hquiet => ?_⟩
      cases steps with
      | zero => simp at hsteps
      | succ steps =>
          simp only [List.length_append, List.length_cons] at hsteps hquiet
          simp only [List.append_assoc, List.cons_append] at hquiet ⊢
          have hmembers : Refused o (readMembers steps (skipSpace (l ++ (u ++ (t ++ r))))) :=
            hl.refused ih (by omega) (hquiet.enter .object (by omega))
          obtain ⟨s, hs⟩ := hl.skip
          rw [hs] at hmembers
          simpa [readValue, hs] using hmembers.bind

end Refusals

/-! Whole texts. -/

variable {s : List Char} {v : Value}

theorem Item.head_ne (h : Item s v) : s.head? ≠ some '\ufeff' := by
  cases h with
  | @mk w t v w' hw ht hw' =>
      obtain ⟨c, s, rfl, -, -, hc⟩ := ht.head
      cases w with
      | nil => simpa using hc
      | cons d w =>
          rw [List.cons_append, List.head?_cons]
          rintro ⟨⟩
          exact absurd (hw _ List.mem_cons_self) (by decide)

/-- A byte order mark is never on the way to a document. -/
theorem Viable.head_ne (h : Viable s) : s.head? ≠ some '\ufeff' := by
  obtain ⟨rest, v, hv⟩ := h
  intro hmark
  cases s with
  | nil => cases hmark
  | cons c s => exact hv.head_ne hmark

theorem read_of_head_ne (h : s.head? ≠ some '\ufeff') : read s = (do
    let (v, rest) ← readValue (2 * s.length + 1) (skipSpace s)
    match skipSpace rest with
    | [] => return v
    | _ => throw (.malformed .trailingText)) := by
  unfold read
  split
  · exact absurd rfl h
  · rfl

theorem item_of_read (h : read s = .ok v) : Item s v := by
  unfold read at h
  split at h
  · cases h
  · obtain ⟨⟨v', rest⟩, hvalue, hend⟩ := exists_of_bind_eq_ok h
    dsimp only at hend
    split at hend
    · rename_i hnil
      cases hend
      obtain ⟨t, ht, hs⟩ := (readsOnly _).value hvalue
      obtain ⟨w, hw, hsplit⟩ := exists_blank_append_skipSpace s
      obtain ⟨w', hw', hrest⟩ := exists_blank_append_skipSpace rest
      rw [hsplit, hs, hrest, hnil, List.append_nil]
      exact .mk hw ht hw'
    · cases hend

theorem Item.read_text (h : Item s v) (hquiet : Quiet Blank s (s.length + 1)) :
    Document.read s = .ok v := by
  obtain ⟨r', hread, hr'⟩ := h.read (Nat.le_succ (2 * s.length)) Json.stops_nil
    (by rwa [List.append_nil])
  rw [List.append_nil] at hread
  have hend : skipSpace r' = [] := hr'
  rw [read_of_head_ne h.head_ne, hread]
  simp only [bind, Except.bind, hend]
  rfl

theorem occurs_of_read {refusal : Refusal} (h : read s = .error refusal)
    (hvalid : refusal.occurrence ≠ .malformed) : ∃ p, Occurs Blank s p refusal.occurrence := by
  unfold read at h
  split at h
  · cases h
    exact absurd rfl hvalid
  · rcases bind_eq_error_cases h with hvalue | ⟨⟨v, rest⟩, -, hend⟩
    · obtain ⟨p, hp⟩ := (reports _).value hvalue hvalid
      obtain ⟨w, hw, hsplit⟩ := exists_blank_append_skipSpace s
      rw [hsplit]
      exact ⟨_, hp.skip hw⟩
    · dsimp only at hend
      split at hend
      · cases hend
      · cases hend
        exact absurd rfl hvalid

theorem refused_of_occurs {p : Nat} {o : Occurrence} (h : Occurs Blank s p o)
    (hquiet : Quiet Blank s p) : Refused o (read s) := by
  obtain ⟨before, after, hs, hlen, hviable⟩ := h.viable
  cases h with
  | @mk w u t r _ hw hu ht =>
      have hvalue := hu.refused ht
      have hne : before ≠ [] := by
        rintro rfl
        have hpos := hvalue.pos
        simp only [List.length_nil] at hlen
        omega
      rw [read_of_head_ne, hvalue.skip hw]
      · refine (hvalue.refused ?_ (hquiet.skip hw (Nat.le_refl _))).bind
        simp
        omega
      · rw [hs, List.head?_append_of_ne_nil _ hne]
        exact hviable.head_ne

/-! The first event. -/

theorem Occurs.ne_malformed {lead : List Char → Prop} {p : Nat} {o : Occurrence}
    (h : Occurs lead s p o) : o ≠ .malformed := by
  cases h with
  | mk _ _ ht => cases ht <;> exact nofun

/-- Up to where a value shows what is wrong with it a document is in sight, so that nothing
malformed shows before. -/
theorem Occurs.lt_of_malformed {p p' : Nat} {o : Occurrence} (h : Occurs Blank s p o)
    (h' : Event s p' .malformed) : p < p' := by
  obtain ⟨before, after, hs, rfl, hviable⟩ := h.viable
  cases h' with
  | value hvalue => exact absurd rfl hvalue.ne_malformed
  | @malformed t c r hs' _ hnot =>
      by_contra hle
      obtain ⟨rest, hrest⟩ : (t ++ [c]) <+: before := by
        refine List.prefix_of_prefix_length_le ⟨r, ?_⟩ ⟨after, hs.symm⟩ ?_
        · simp [hs']
        · simpa using hle
      rw [← hrest] at hviable
      exact hnot hviable.of_append
  | incomplete _ _ =>
      rw [hs, List.length_append]
      omega

theorem Item.viable (h : Item s v) : Viable s :=
  ⟨[], v, by rwa [List.append_nil]⟩

theorem Item.not_malformed {p : Nat} (h : Item s v) : ¬Event s p .malformed := by
  intro hevent
  cases hevent with
  | value hvalue => exact hvalue.ne_malformed rfl
  | @malformed t c r hs _ hnot =>
      have hviable := h.viable
      rw [hs, List.append_cons] at hviable
      exact hnot hviable.of_append
  | incomplete _ hnone => exact hnone v h

/-- Some character is the first with which no document is in sight any more. -/
theorem exists_last_viable (h : ¬Viable s) :
    ∃ t c r, s = t ++ c :: r ∧ Viable t ∧ ¬Viable (t ++ [c]) := by
  induction s using List.reverseRecOn with
  | nil => exact absurd viable_nil h
  | append_singleton s c ih =>
      by_cases hviable : Viable s
      · exact ⟨s, c, [], rfl, hviable, h⟩
      · obtain ⟨t, d, r, rfl, ht, hd⟩ := ih hviable
        exact ⟨t, d, r ++ [c], by simp, ht, hd⟩

/-- A text in which nothing occurs is a document. -/
theorem exists_item_of_no_event (h : ∀ p o, ¬Event s p o) : ∃ v, Item s v := by
  by_contra hnone
  by_cases hviable : Viable s
  · exact h _ _ (.incomplete hviable fun v hv => hnone ⟨v, hv⟩)
  · obtain ⟨t, c, r, hs, ht, hc⟩ := exists_last_viable hviable
    exact h _ _ (.malformed hs ht hc)

theorem exists_first {p : Nat} {o : Occurrence} (h : Event s p o) : ∃ p' o', First s p' o' := by
  classical
  have hsome : ∃ p o, Event s p o := ⟨p, o, h⟩
  obtain ⟨o', ho'⟩ := Nat.find_spec hsome
  exact ⟨_, o', ho', fun p' o'' h' => Nat.find_min' hsome ⟨o'', h'⟩⟩

/-- What occurs first is what a text is refused for. -/
theorem First.refused {p : Nat} {o : Occurrence} (h : First s p o) : Refused o (read s) := by
  by_cases ho : o = .malformed
  · subst ho
    cases hread : read s with
    | ok v => exact absurd h.1 (item_of_read hread).not_malformed
    | error refusal =>
        refine ⟨refusal, rfl, ?_⟩
        by_contra hvalid
        obtain ⟨p', hp'⟩ := occurs_of_read hread hvalid
        have hlt := hp'.lt_of_malformed h.1
        exact absurd (h.2 _ _ (.value hp')) (Nat.not_le.2 hlt)
  · cases h.1 with
    | value hvalue => exact refused_of_occurs hvalue fun p' o' h' => h.2 _ _ (.value h')
    | malformed _ _ _ => exact absurd rfl ho
    | incomplete _ _ => exact absurd rfl ho

theorem First.unique {p p' : Nat} {o o' : Occurrence} (h : First s p o) (h' : First s p' o') :
    p = p' ∧ o = o' := by
  obtain ⟨refusal, hread, rfl⟩ := h.refused
  obtain ⟨refusal', hread', rfl⟩ := h'.refused
  rw [hread] at hread'
  cases hread'
  exact ⟨Nat.le_antisymm (h.2 _ _ h'.1) (h'.2 _ _ h.1), rfl⟩

theorem Item.read_of_no_event (h : Item s v) (hnone : ∀ p o, ¬Event s p o) :
    Document.read s = .ok v :=
  h.read_text fun _ _ ho => absurd (.value ho) (hnone _ _)

/-- A text is refused for what occurs first in it, and read where nothing occurs: as the value that
it spells. -/
theorem read_first (s : List Char) :
    (∀ refusal, read s = .error refusal → ∃ p, First s p refusal.occurrence) ∧
    (∀ p o, First s p o → ∃ refusal, read s = .error refusal ∧ refusal.occurrence = o) ∧
    ∀ v, read s = .ok v ↔ Item s v ∧ ∀ p o, ¬Event s p o := by
  refine ⟨?_, fun p o h => h.refused, fun v => ⟨fun h => ⟨item_of_read h, ?_⟩, ?_⟩⟩
  · intro refusal herror
    have hsome : ∃ p o, Event s p o := by
      by_contra hnone
      have hno : ∀ p o, ¬Event s p o := fun p o h => hnone ⟨p, o, h⟩
      obtain ⟨v, hv⟩ := exists_item_of_no_event hno
      rw [hv.read_of_no_event hno] at herror
      cases herror
    obtain ⟨p, o, hevent⟩ := hsome
    obtain ⟨p', o', hfirst⟩ := exists_first hevent
    obtain ⟨refusal', herror', rfl⟩ := hfirst.refused
    rw [herror] at herror'
    cases herror'
    exact ⟨p', hfirst⟩
  · intro p o hevent
    obtain ⟨p', o', hfirst⟩ := exists_first hevent
    obtain ⟨refusal, herror, -⟩ := hfirst.refused
    rw [h] at herror
    cases herror
  · rintro ⟨hv, hnone⟩
    exact hv.read_of_no_event hnone

end JsonWriter.Document
