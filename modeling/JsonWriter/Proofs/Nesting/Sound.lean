import JsonWriter.Proofs.Nesting.Runs

/-! What is so of the open containers at all times, whatever was tried: how many there are, which
marks they have, and that no container but the innermost is touched. -/
namespace JsonWriter

open Tracker

/-- What holds of the open containers under a limit. Only the innermost can be a string, and only it
can be empty or wait for a value. -/
structure Stack.Sound (limit : Option Int) (st : Stack) : Prop where
  room : ∀ n, limit = some n → (st.level : Int) ≤ max 0 n
  awaiting : ∀ f ∈ st, f.awaitingValue = true → f.kind = .object
  string : ∀ f ∈ st, f.kind = .string → f.hasMember = false ∧ f.awaitingValue = false
  outer : ∀ f ∈ st.tail, f.kind ≠ .string ∧ f.hasMember = true ∧ f.awaitingValue = false

namespace Stack

variable {limit : Option Int} {f : Frame} {outer st st' : Stack} {sep : Separator}

theorem Sound.nil (limit : Option Int) : Sound limit [] where
  room _ _ := le_max_left 0 _
  awaiting := nofun
  string := nofun
  outer := nofun

/-- A container that is marked as it may be has members after a value, and waits for none. -/
theorem value_marks (h : value (f :: outer) = .ok (sep, st'))
    (hf : f.awaitingValue = true → f.kind = .object) :
    f.kind ≠ .string ∧ st' = ⟨f.kind, true, false⟩ :: outer := by
  obtain ⟨kind, hasMember, awaitingValue⟩ := f
  cases kind with
  | array =>
      cases awaitingValue with
      | true => cases hf rfl
      | false =>
          cases h
          exact ⟨nofun, rfl⟩
  | object =>
      cases awaitingValue with
      | true =>
          cases h
          exact ⟨nofun, rfl⟩
      | false => cases h
  | string => cases h

theorem key_marks (h : key (f :: outer) = .ok (sep, st')) :
    f.kind = .object ∧ st' = ⟨.object, f.hasMember, true⟩ :: outer := by
  obtain ⟨kind, hasMember, awaitingValue⟩ := f
  cases kind with
  | array => cases h
  | object =>
      cases awaitingValue with
      | true => cases h
      | false =>
          cases h
          exact ⟨rfl, rfl⟩
  | string => cases h

theorem Sound.tail (h : Sound limit (f :: outer)) : Sound limit outer where
  room n hn := by
    have hroom := h.room n hn
    unfold level at hroom ⊢
    rw [List.length_cons] at hroom
    omega
  awaiting g hg := h.awaiting g (List.mem_cons_of_mem f hg)
  string g hg := h.string g (List.mem_cons_of_mem f hg)
  outer g hg := h.outer g (List.mem_of_mem_tail hg)

/-- New marks of the innermost container, where they are such as it may have. -/
theorem Sound.mark (h : Sound limit (f :: outer)) {g : Frame}
    (hawaiting : g.awaitingValue = true → g.kind = .object) (hstring : g.kind ≠ .string) :
    Sound limit (g :: outer) where
  room := h.room
  awaiting := List.forall_mem_cons.2 ⟨hawaiting, h.tail.awaiting⟩
  string := List.forall_mem_cons.2 ⟨fun hkind => absurd hkind hstring, h.tail.string⟩
  outer := h.outer

theorem Sound.value (h : Sound limit st) (hvalue : st.value = .ok (sep, st')) :
    Sound limit st' ∧ ∀ f ∈ st', f.kind ≠ .string ∧ f.hasMember = true ∧ f.awaitingValue = false := by
  cases st with
  | nil =>
      cases hvalue
      exact ⟨h, nofun⟩
  | cons f outer =>
      obtain ⟨hkind, rfl⟩ := value_marks hvalue (h.awaiting f List.mem_cons_self)
      exact ⟨h.mark nofun hkind, List.forall_mem_cons.2 ⟨⟨hkind, rfl, rfl⟩, h.outer⟩⟩

theorem Sound.key (h : Sound limit st) (hkey : st.key = .ok (sep, st')) : Sound limit st' := by
  cases st with
  | nil => cases hkey
  | cons f outer =>
      obtain ⟨-, rfl⟩ := key_marks hkey
      exact h.mark (fun _ => rfl) nofun

/-- What is opened stands in a container that has members and waits for nothing. -/
theorem Sound.push (h : Sound limit st) (kind : FrameKind) (hvalue : st.value = .ok (sep, st'))
    (hroom : ∀ n, limit = some n → (st.level : Int) < n) : Sound limit ({ kind } :: st') := by
  obtain ⟨hsound, houter⟩ := h.value hvalue
  refine ⟨?_, ?_, ?_, houter⟩
  · intro n hn
    have hlt := hroom n hn
    unfold level at hlt ⊢
    rw [List.length_cons, length_of_value hvalue]
    omega
  · exact List.forall_mem_cons.2 ⟨nofun, hsound.awaiting⟩
  · exact List.forall_mem_cons.2 ⟨fun _ => ⟨rfl, rfl⟩, hsound.string⟩

/-- The containers around one that is closed have members already. -/
theorem Sound.pop (h : Sound limit st) (hpop : st.pop = .ok (f, st')) : st = f :: st' := by
  cases st with
  | nil => cases hpop
  | cons g outer =>
      obtain ⟨rfl, rfl⟩ := pop_eq_ok hpop
      cases outer with
      | nil => rfl
      | cons parent rest =>
          obtain ⟨-, hmember, -⟩ := h.outer parent List.mem_cons_self
          rw [markMember, ← hmember]

/-- No move that is made can break what holds of the open containers. -/
theorem Sound.act {m : Move} {a : Answer} (h : Sound limit st)
    (hact : m.act limit st = .ok (a, st')) : Sound limit st' := by
  obtain ⟨hfree, hroom⟩ := Move.act_eq_ok_iff.1 hact
  have hmakes : m.Makes st st' := Move.act_makes hfree
  cases hmakes with
  | value hvalue => exact (h.value hvalue).1
  | key hkey => exact h.key hkey
  | chunk hchunk =>
      rw [eq_of_chunk hchunk]
      exact h
  | push kind hvalue => exact h.push kind hvalue fun n hn => hroom kind n rfl hn
  | pop hpop =>
      rw [h.pop hpop] at h
      exact h.tail

/-- While a container is open no move touches those around it. -/
theorem suffix_of_makes {m : Move} {s s' : Stack} (hsuffix : st <:+ s)
    (hopen : st.length < s.length) (hmakes : m.Makes s s') (hopen' : st.length < s'.length) :
    st <:+ s' := by
  cases s with
  | nil => cases hopen
  | cons f outer =>
      have houter : st <:+ outer := by
        rcases List.suffix_cons_iff.1 hsuffix with rfl | houter
        · exact absurd hopen (lt_irrefl _)
        · exact houter
      cases hmakes with
      | value hvalue =>
          obtain ⟨hnil, -⟩ | ⟨g, g', rest, heq, rfl, -⟩ := value_cases hvalue
          · cases hnil
          · cases heq
            exact houter.trans (List.suffix_cons g' outer)
      | key hkey =>
          obtain ⟨-, rfl⟩ := key_marks hkey
          exact houter.trans (List.suffix_cons _ outer)
      | chunk hchunk =>
          rw [eq_of_chunk hchunk]
          exact hsuffix
      | push kind hvalue =>
          obtain ⟨hnil, -⟩ | ⟨g, g', rest, heq, rfl, -⟩ := value_cases hvalue
          · cases hnil
          · cases heq
            exact (houter.trans (List.suffix_cons g' outer)).trans (List.suffix_cons _ _)
      | pop hpop =>
          obtain ⟨-, rfl⟩ := pop_eq_ok hpop
          cases outer with
          | nil => exact houter
          | cons parent rest =>
              rcases List.suffix_cons_iff.1 houter with rfl | hrest
              · exact absurd hopen' (lt_irrefl _)
              · exact hrest.trans (List.suffix_cons _ rest)

theorem eq_of_pop {s s' : Stack} (hsuffix : st <:+ s) (hopen : st.length < s.length)
    (hpop : s.pop = .ok (f, s')) (hlength : s'.length = st.length) : s' = markMember st := by
  cases s with
  | nil => cases hpop
  | cons g outer =>
      obtain ⟨-, rfl⟩ := pop_eq_ok hpop
      have houter : outer.length = st.length := by
        rw [← hlength]
        cases outer <;> rfl
      rcases List.suffix_cons_iff.1 hsuffix with rfl | hsuffix
      · exact absurd hopen (lt_irrefl _)
      · rw [hsuffix.eq_of_length houter.symm]

end Stack

namespace Tracker

variable {limit : Option Int} {t : Tracker}

/-- A move that is tried makes its change, or leaves the open containers as they are. -/
theorem Move.outcome_stack (m : Move) (t : Tracker) :
    (m.outcome t).2.limit = t.limit ∧ ((m.outcome t).2.stack = t.stack ∨
      ∃ a, m.act t.limit t.stack = .ok (a, (m.outcome t).2.stack)) := by
  unfold outcome
  cases hact : m.act t.limit t.stack with
  | ok r =>
      rw [run_of_ok hact]
      exact ⟨rfl, .inr ⟨r.1, rfl⟩⟩
  | error cause =>
      rw [run_of_error hact]
      exact ⟨rfl, .inl rfl⟩

theorem limit_runAll (t : Tracker) (tried : List Move) : (t.runAll tried).limit = t.limit := by
  induction tried generalizing t with
  | nil => rfl
  | cons m rest ih => exact (ih _).trans (m.outcome_stack t).1

theorem sound_runAll (h : t.stack.Sound t.limit) (tried : List Move) :
    (t.runAll tried).stack.Sound t.limit := by
  induction tried generalizing t with
  | nil => exact h
  | cons m rest ih =>
      obtain ⟨hlimit, hstack⟩ := m.outcome_stack t
      have hnext : (m.outcome t).2.stack.Sound (m.outcome t).2.limit := by
        rw [hlimit]
        rcases hstack with hsame | ⟨a, hact⟩
        · rwa [hsame]
        · exact h.act hact
      have hrest := ih hnext
      rwa [hlimit] at hrest

/-- A run that never closes a container leaves those around it as they are. -/
theorem suffix_runAll {st : Stack} (hsuffix : st <:+ t.stack) (tried : List Move)
    (hopen : ∀ begun, begun <+: tried → st.length < (t.runAll begun).level) :
    st <:+ (t.runAll tried).stack := by
  induction tried generalizing t with
  | nil => exact hsuffix
  | cons m rest ih =>
      have hnow : st.length < t.stack.length := hopen [] List.nil_prefix
      have hnext : st.length < (m.outcome t).2.stack.length :=
        hopen [m] (List.prefix_cons_iff.2 (.inr ⟨[], rfl, List.nil_prefix⟩))
      have hsuffix' : st <:+ (m.outcome t).2.stack := by
        rcases (m.outcome_stack t).2 with hsame | ⟨a, hact⟩
        · rwa [hsame]
        · have hmakes := Move.act_makes (Move.act_eq_ok_iff.1 hact).1
          exact Stack.suffix_of_makes hsuffix hnow hmakes hnext
      refine ih hsuffix' ?_
      intro begun hbegun
      exact hopen (m :: begun) (List.cons_prefix_cons.2 ⟨rfl, hbegun⟩)

theorem Move.push_eq_ok {kind : FrameKind} {a : Answer} {t₁ : Tracker}
    (h : (push kind).run t = .ok a t₁) :
    ∃ (sep : Separator) (st : Stack), a = .separator sep ∧ t.stack.value = .ok (sep, st) ∧
      t₁ = { t with stack := { kind } :: st } := by
  obtain ⟨st₁, hact, rfl⟩ := run_eq_ok h
  obtain ⟨⟨sep, st₂⟩, hpush, hanswer⟩ := map_eq_ok (act_eq_ok_iff.1 hact).1
  obtain ⟨⟨sep, st⟩, hvalue, hopened⟩ := map_eq_ok hpush
  cases hopened
  cases hanswer
  exact ⟨sep, st, rfl, hvalue, rfl⟩

theorem Move.pop_eq_ok {a : Answer} {t' : Tracker} (h : pop.run t = .ok a t') :
    ∃ f st, a = .frame f ∧ t.stack.pop = .ok (f, st) ∧ t' = { t with stack := st } := by
  obtain ⟨st₁, hact, rfl⟩ := run_eq_ok h
  obtain ⟨⟨f, st⟩, hpop, hanswer⟩ := map_eq_ok hact
  cases hanswer
  exact ⟨f, st, rfl, hpop, rfl⟩

/-- A container that was opened and closed again leaves what a single value would have left. -/
theorem value_of_closed {kind : FrameKind} {a b : Answer} {t₁ t' : Tracker} {tried : List Move}
    (hpush : (Move.push kind).run t = .ok a t₁)
    (hopen : ∀ begun, begun <+: tried → t.level < (t₁.runAll begun).level)
    (hpop : Move.pop.run (t₁.runAll tried) = .ok b t') (hlevel : t'.level = t.level) :
    ∃ t₀, Move.value.run t = .ok a t₀ ∧ t'.stack = t₀.stack := by
  obtain ⟨sep, st, rfl, hvalue, rfl⟩ := Move.push_eq_ok hpush
  have hlength : st.length = t.level := Stack.length_of_value hvalue
  have hact : Move.value.act t.limit t.stack = .ok (.separator sep, st) := by
    simp only [Move.act, hvalue]
    rfl
  refine ⟨{ t with stack := st }, Move.run_of_ok hact, ?_⟩
  rw [← hlength] at hopen
  have hsuffix := suffix_runAll (List.suffix_cons _ st) tried hopen
  have hbefore := hopen tried List.prefix_rfl
  obtain ⟨f, st', -, hclosed, rfl⟩ := Move.pop_eq_ok hpop
  have hlevel : st'.length = st.length := Eq.trans hlevel hlength.symm
  change st' = st
  rw [Stack.eq_of_pop hsuffix hbefore hclosed hlevel]
  exact Stack.markMember_of_value hvalue

/-- An object in an array counts as one item of it, also after a key of it was refused. -/
example :
    (runAll {} [.push .array, .push .object, .key, .key, .value, .pop]).stack =
      (runAll {} [.push .array, .value]).stack := by
  decide

end Tracker
end JsonWriter
