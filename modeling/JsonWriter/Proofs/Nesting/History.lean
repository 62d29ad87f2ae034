import JsonWriter.Proofs.Nesting.Grammar

/-! The stack as a view of the moves that were made: what is open was opened and not closed, and the
marks of a container tell what was done in it itself, not in what it holds. -/
namespace JsonWriter.Tracker

/-- Moves that close just what they open, and those of them that are made outside all they open. -/
inductive Balanced : List Move → List Move → Prop
  | nil : Balanced [] []
  | single {m w own} : Move.levelChange m = 0 → Balanced w own → Balanced (m :: w) (m :: own)
  | nested {kind body inner w own} : Balanced body inner → Balanced w own →
      Balanced (.push kind :: (body ++ .pop :: w)) (.push kind :: own)

/-- A container that was opened and not closed, with the moves that were made while it was the
innermost one. -/
structure Opened where
  kind : FrameKind
  moves : List Move

/-- Values, and containers as values, are members of what they stand in. -/
def Move.isMember : Move → Bool
  | value | push _ => true
  | key | chunk | pop => false

namespace Opened

def note (moves : List Move) (o : Opened) : Opened := { o with moves := o.moves ++ moves }

def hasMember (o : Opened) : Bool := o.moves.any Move.isMember

def awaitsValue (o : Opened) : Bool := decide (o.kind = .object ∧ o.moves.getLast? = some .key)

/-- The marks of a container, by the moves that were made in it. -/
def frame (o : Opened) : Frame := ⟨o.kind, o.hasMember, o.awaitsValue⟩

end Opened

/-- Moves are noted in the innermost of the containers, and nowhere at the top level. -/
def noted (moves : List Move) (opened : List Opened) : List Opened :=
  opened.modifyHead (.note moves)

/-- The containers that moves leave open, the innermost first. The moves are cut at the pushes that
are not matched; what stands between two of them is balanced. -/
inductive Unmatched : List Move → List Opened → Prop
  | top {w own} : Balanced w own → Unmatched w []
  | inside {w opened kind body own} : Unmatched w opened → Balanced body own →
      Unmatched (w ++ .push kind :: body) (⟨kind, own⟩ :: noted [.push kind] opened)

theorem noted_noted (u w : List Move) (opened : List Opened) :
    noted w (noted u opened) = noted (u ++ w) opened := by
  cases opened with
  | nil => rfl
  | cons o rest => simp [noted, Opened.note]

theorem noted_nil (opened : List Opened) : noted [] opened = opened := by
  cases opened with
  | nil => rfl
  | cons o rest => simp [noted, Opened.note]

theorem Balanced.append {u own w own' : List Move} (h : Balanced u own) (hw : Balanced w own') :
    Balanced (u ++ w) (own ++ own') := by
  induction h with
  | nil => exact hw
  | single hm _ ih => exact .single hm ih
  | nested hbody _ _ ih =>
      rw [List.cons_append, List.append_assoc]
      exact .nested hbody ih

/-- Balanced moves count as moves in the innermost container. -/
theorem Unmatched.append {w u own : List Move} {opened : List Opened} (h : Unmatched w opened)
    (hu : Balanced u own) : Unmatched (w ++ u) (noted own opened) := by
  cases h with
  | top hw => exact .top (hw.append hu)
  | inside hw hbody =>
      rw [List.append_assoc, List.cons_append]
      exact .inside hw (hbody.append hu)

namespace Opened

variable {o : Opened} {m : Move} {outer st' : Stack} {sep : Separator}

theorem hasMember_note : (o.note [m]).hasMember = (o.hasMember || m.isMember) := by
  simp [note, hasMember]

theorem awaitsValue_note : (o.note [m]).awaitsValue = decide (o.kind = .object ∧ m = .key) := by
  simp [note, awaitsValue]

theorem awaitsValue_of_kind (h : o.kind ≠ .object) : o.awaitsValue = false := by
  simp [awaitsValue, h]

theorem fresh_frame (kind : FrameKind) : ({ kind } : Frame) = Opened.frame ⟨kind, []⟩ := by
  cases kind <;> rfl

/-- What a member that is made in a container does to its marks, and what separates it. -/
theorem value_frame (hm : m.isMember = true)
    (h : Stack.value (o.frame :: outer) = .ok (sep, st')) :
    st' = (o.note [m]).frame :: outer ∧
      (sep = .comma ↔ o.kind = .array ∧ o.hasMember = true) := by
  have hkey : m ≠ .key := by
    rintro rfl
    cases hm
  have hnote : (o.note [m]).frame = ⟨o.kind, true, false⟩ := by
    unfold frame
    rw [hasMember_note, awaitsValue_note, hm, Bool.or_true, decide_eq_false fun h => hkey h.2]
    rfl
  rw [hnote]
  unfold frame at h
  cases hkind : o.kind with
  | array =>
      rw [hkind, awaitsValue_of_kind (by rw [hkind]; decide)] at h
      cases h
      exact ⟨rfl, by simp [Frame.separator]⟩
  | object =>
      rw [hkind] at h
      cases hawaits : o.awaitsValue with
      | false =>
          rw [hawaits] at h
          cases h
      | true =>
          rw [hawaits] at h
          cases h
          exact ⟨rfl, by simp⟩
  | string =>
      rw [hkind] at h
      cases h

/-- A key is made only in an object, and is separated where that has members. -/
theorem key_frame (h : Stack.key (o.frame :: outer) = .ok (sep, st')) :
    st' = (o.note [.key]).frame :: outer ∧ o.kind = .object ∧
      (sep = .comma ↔ o.hasMember = true) := by
  have hnote : (o.note [.key]).frame = ⟨o.kind, o.hasMember, decide (o.kind = .object)⟩ := by
    unfold frame
    rw [hasMember_note, awaitsValue_note, Move.isMember, Bool.or_false]
    simp [note]
  rw [hnote]
  unfold frame at h
  cases hkind : o.kind with
  | array =>
      rw [hkind] at h
      cases h
  | object =>
      rw [hkind] at h
      cases hawaits : o.awaitsValue with
      | false =>
          rw [hawaits] at h
          cases h
          exact ⟨rfl, rfl, by simp [Frame.separator]⟩
      | true =>
          rw [hawaits] at h
          cases h
  | string =>
      rw [hkind] at h
      cases h

theorem chunk_frame (h : Stack.chunk (o.frame :: outer) = .ok ((), st')) :
    st' = (o.note [.chunk]).frame :: outer := by
  have hstring : o.kind = .string := by
    unfold frame at h
    cases hkind : o.kind with
    | string => rfl
    | _ =>
        rw [hkind] at h
        cases h
  have hnote : (o.note [.chunk]).frame = o.frame := by
    unfold frame
    rw [hasMember_note, awaitsValue_note, awaitsValue_of_kind (by rw [hstring]; decide),
      Move.isMember, Bool.or_false]
    simp [note]
  rw [Stack.eq_of_chunk h, hnote]

/-- A move that neither opens nor closes a container is noted in the innermost one. -/
theorem makes_frame (hm : m.levelChange = 0) (h : m.Makes (o.frame :: outer) st') :
    st' = (o.note [m]).frame :: outer := by
  cases h with
  | value h => exact (value_frame rfl h).1
  | key h => exact (key_frame h).1
  | chunk h => exact chunk_frame h
  | push kind h => cases hm
  | pop h => cases hm

end Opened

variable {opened : List Opened} {w own : List Move} {m : Move} {st : Stack} {sep : Separator}

/-- A member is noted where it is made, and is separated from those before it in an array. -/
theorem value_opened (hm : m.isMember = true)
    (h : Stack.value (opened.map Opened.frame) = .ok (sep, st)) :
    st = (noted [m] opened).map Opened.frame ∧
      (sep = .comma ↔ ∃ o ∈ opened.head?, o.kind = .array ∧ o.hasMember = true) := by
  cases opened with
  | nil =>
      cases h
      exact ⟨rfl, by simp⟩
  | cons o rest =>
      obtain ⟨rfl, hsep⟩ := Opened.value_frame hm h
      exact ⟨rfl, by simpa using hsep⟩

theorem makes_opened (hm : m.levelChange = 0) (h : m.Makes (opened.map Opened.frame) st) :
    st = (noted [m] opened).map Opened.frame := by
  cases opened with
  | nil =>
      cases h with
      | value h => exact (value_opened (m := .value) rfl h).1
      | key h => cases h
      | chunk h => cases h
      | push kind h => cases hm
      | pop h => cases hm
  | cons o rest => exact Opened.makes_frame hm h

theorem push_opened {kind : FrameKind} (h : Move.Makes (.push kind) (opened.map Opened.frame) st) :
    st = (⟨kind, []⟩ :: noted [.push kind] opened).map Opened.frame := by
  cases h with
  | push _ h =>
      obtain ⟨rfl, -⟩ := value_opened (m := .push kind) rfl h
      rw [List.map_cons, Opened.fresh_frame]

/-- What is closed just leaves what is open around it: the push that opened it is a member there. -/
theorem pop_opened {kind : FrameKind} {body : List Move} {st₀ : Stack}
    (hpush : Move.Makes (.push kind) st₀ (Opened.frame ⟨kind, []⟩ :: opened.map Opened.frame))
    (h : Move.Makes .pop (Opened.frame ⟨kind, body⟩ :: opened.map Opened.frame) st) :
    st = opened.map Opened.frame := by
  cases h with
  | pop h =>
      obtain ⟨-, rfl⟩ := Stack.pop_eq_ok h
      rw [← Opened.fresh_frame] at hpush
      cases hpush with
      | push _ hvalue => exact Stack.markMember_of_value hvalue

/-- Balanced moves leave the containers around them as they were, and in the one they are made in
they count as far as they are its own. -/
theorem Balanced.replay?_opened (h : Balanced w own)
    (hw : replay? (opened.map Opened.frame) w = some st) :
    st = (noted own opened).map Opened.frame := by
  induction h generalizing opened st with
  | nil =>
      cases hw
      rw [noted_nil]
  | @single m w own hm _ ih =>
      rw [replay?_cons] at hw
      obtain ⟨st₁, hfirst, hrest⟩ := Option.bind_eq_some_iff.1 hw
      have hst₁ := makes_opened hm (Move.next?_eq_some_iff.1 hfirst)
      subst hst₁
      rw [ih hrest, noted_noted, List.singleton_append]
  | @nested kind body inner w own _ _ ihbody ih =>
      rw [replay?_cons] at hw
      obtain ⟨st₁, hfirst, hw⟩ := Option.bind_eq_some_iff.1 hw
      have hopen := Move.next?_eq_some_iff.1 hfirst
      have hst₁ := push_opened hopen
      subst hst₁
      rw [replay?_append] at hw
      obtain ⟨st₂, hinside, hw⟩ := Option.bind_eq_some_iff.1 hw
      have hst₂ := ihbody hinside
      subst hst₂
      rw [replay?_cons] at hw
      obtain ⟨st₃, hlast, hrest⟩ := Option.bind_eq_some_iff.1 hw
      have hst₃ := pop_opened hopen (Move.next?_eq_some_iff.1 hlast)
      subst hst₃
      rw [ih hrest, noted_noted, List.singleton_append]

namespace Unmatched

theorem replay? (h : Unmatched w opened) (hw : Tracker.replay? [] w = some st) :
    st = opened.map Opened.frame := by
  induction h generalizing st with
  | top hbalanced =>
      have htop : Tracker.replay? (List.map Opened.frame []) _ = some st := hw
      exact hbalanced.replay?_opened htop
  | @inside w opened kind body own _ hbody ih =>
      rw [replay?_append] at hw
      obtain ⟨st₁, hbefore, hw⟩ := Option.bind_eq_some_iff.1 hw
      have hst₁ := ih hbefore
      subst hst₁
      rw [replay?_cons] at hw
      obtain ⟨st₂, hfirst, hrest⟩ := Option.bind_eq_some_iff.1 hw
      have hst₂ := push_opened (Move.next?_eq_some_iff.1 hfirst)
      subst hst₂
      exact hbody.replay?_opened hrest

/-- One more move that is allowed: what it closes was open. -/
theorem move {st' : Stack} (h : Unmatched w opened)
    (hmakes : m.Makes (opened.map Opened.frame) st') : ∃ opened', Unmatched (w ++ [m]) opened' := by
  cases m with
  | value => exact ⟨_, h.append (.single rfl .nil)⟩
  | key => exact ⟨_, h.append (.single rfl .nil)⟩
  | chunk => exact ⟨_, h.append (.single rfl .nil)⟩
  | push kind => exact ⟨_, .inside h .nil⟩
  | pop =>
      cases h with
      | top _ =>
          cases hmakes with
          | pop h => cases h
      | inside hw hbody =>
          rw [List.append_assoc, List.cons_append]
          exact ⟨_, hw.append (.nested hbody .nil)⟩

theorem of_replay? (h : Tracker.replay? [] w = some st) : ∃ opened, Unmatched w opened := by
  induction w using List.reverseRecOn generalizing st with
  | nil => exact ⟨[], .top .nil⟩
  | append_singleton w m ih =>
      rw [replay?_concat] at h
      obtain ⟨st₁, hw, hm⟩ := Option.bind_eq_some_iff.1 h
      obtain ⟨opened, hopened⟩ := ih hw
      have hst₁ := hopened.replay? hw
      subst hst₁
      exact hopened.move (Move.next?_eq_some_iff.1 hm)

end Unmatched

/-- What the moves that put a separator answer, by what was done in the innermost container. -/
theorem separator_opened {limit : Option Int} {a : Answer}
    (h : m.act limit (opened.map Opened.frame) = .ok (a, st)) :
    (m.isMember = true → ∃ sep, a = .separator sep ∧
      (sep = .comma ↔ ∃ o ∈ opened.head?, o.kind = .array ∧ o.hasMember = true)) ∧
    (m = .key → ∃ sep, a = .separator sep ∧
      ∃ o ∈ opened.head?, o.kind = .object ∧ (sep = .comma ↔ o.hasMember = true)) := by
  have hfree := (Move.act_eq_ok_iff.1 h).1
  cases m with
  | value =>
      obtain ⟨⟨sep, st₁⟩, hvalue, hanswer⟩ := map_eq_ok hfree
      cases hanswer
      exact ⟨fun hm => ⟨sep, rfl, (value_opened hm hvalue).2⟩, nofun⟩
  | push kind =>
      obtain ⟨⟨sep, st₁⟩, hpush, hanswer⟩ := map_eq_ok hfree
      cases hanswer
      obtain ⟨⟨sep, st₁⟩, hvalue, hopened⟩ := map_eq_ok hpush
      cases hopened
      exact ⟨fun hm => ⟨sep, rfl, (value_opened hm hvalue).2⟩, nofun⟩
  | key =>
      obtain ⟨⟨sep, st₁⟩, hkey, hanswer⟩ := map_eq_ok hfree
      cases hanswer
      refine ⟨nofun, fun _ => ⟨sep, rfl, ?_⟩⟩
      cases opened with
      | nil => cases hkey
      | cons o rest => exact ⟨o, rfl, (Opened.key_frame hkey).2⟩
  | chunk => exact ⟨nofun, nofun⟩
  | pop => exact ⟨nofun, nofun⟩

/-- What is open is what was opened and not closed, and each open container is marked by the moves
made in it: whether one was a member, and whether an object got a key last. A member of an array
and a key of an object are separated from the members made there before, and no other value is. -/
theorem stack_eq_history (limit : Option Int) (tried : List Move) :
    let start : Tracker := { limit }
    let t := start.runAll tried
    let made := start.made tried
    (∃ opened, Unmatched made opened) ∧
    ∀ opened, Unmatched made opened → t.stack = opened.map Opened.frame ∧
      ∀ (m : Move) a t', m.run t = .ok a t' →
        (m.isMember = true → ∃ sep, a = .separator sep ∧
          (sep = .comma ↔ ∃ o ∈ opened.head?, o.kind = .array ∧ o.hasMember = true)) ∧
        (m = .key → ∃ sep, a = .separator sep ∧
          ∃ o ∈ opened.head?, o.kind = .object ∧ (sep = .comma ↔ o.hasMember = true)) := by
  intro start t made
  have hreplay : replay? [] made = some t.stack := (runAll_made start tried).2
  refine ⟨Unmatched.of_replay? hreplay, ?_⟩
  intro opened hopened
  have hstack : t.stack = opened.map Opened.frame := hopened.replay? hreplay
  refine ⟨hstack, ?_⟩
  intro m a t' hrun
  obtain ⟨st, hact, -⟩ := Move.run_eq_ok hrun
  rw [hstack] at hact
  exact separator_opened hact

end JsonWriter.Tracker
