import JsonWriter.Proofs.Nesting.Runs

/-! The grammar of moves. A document is a row of phrases, each of which is a value or a container with
what is in it; the moves that a tracker makes are those that begin a document. -/
namespace JsonWriter.Tracker

mutual

/-- The moves of one value. -/
inductive Phrase : List Move → Prop
  | value : Phrase [.value]
  | array {body} : Phrases body → Phrase (.push .array :: (body ++ [.pop]))
  | object {body} : Entries body → Phrase (.push .object :: (body ++ [.pop]))
  | string (n : Nat) : Phrase (.push .string :: (List.replicate n .chunk ++ [.pop]))

/-- The moves of values one after another, as at the top level and in an array. -/
inductive Phrases : List Move → Prop
  | nil : Phrases []
  | cons {w rest} : Phrase w → Phrases rest → Phrases (w ++ rest)

/-- The moves of the members of an object: every key stands right before its value. -/
inductive Entries : List Move → Prop
  | nil : Entries []
  | cons {w rest} : Phrase w → Entries rest → Entries (.key :: (w ++ rest))

end

theorem Phrases.concat {u w : List Move} (h : Phrases u) (hw : Phrase w) : Phrases (u ++ w) :=
  match h with
  | .nil => by
    have hone := Phrases.cons hw .nil
    rwa [List.append_nil] at hone
  | .cons hfirst hrest => by
    rw [List.append_assoc]
    exact .cons hfirst (hrest.concat hw)

theorem Entries.concat {u w : List Move} (h : Entries u) (hw : Phrase w) :
    Entries (u ++ .key :: w) :=
  match h with
  | .nil => by
    have hone := Entries.cons hw .nil
    rwa [List.append_nil] at hone
  | .cons hfirst hrest => by
    rw [List.cons_append, List.append_assoc]
    exact .cons hfirst (hrest.concat hw)

/-- The moves made in an open container. Its marks tell whether it has members, and whether the last
move was a key. -/
inductive Inside : Frame → List Move → Prop
  | array {body} : Phrases body → Inside ⟨.array, !body.isEmpty, false⟩ body
  | object {body} : Entries body → Inside ⟨.object, !body.isEmpty, false⟩ body
  | pending {body} : Entries body → Inside ⟨.object, !body.isEmpty, true⟩ (body ++ [.key])
  | string (n : Nat) : Inside ⟨.string, false, false⟩ (List.replicate n .chunk)

theorem Phrase.ne_nil {w : List Move} (h : Phrase w) : w ≠ [] := by
  cases h <;> exact List.cons_ne_nil _ _

namespace Inside

variable {f : Frame} {body w : List Move} {outer st' : Stack}

theorem fresh (kind : FrameKind) : Inside { kind } [] := by
  cases kind with
  | array => exact .array .nil
  | object => exact .object .nil
  | string => exact .string 0

theorem phrase {sep : Separator} (h : Inside f body)
    (hvalue : Stack.value (f :: outer) = .ok (sep, st')) (hw : Phrase w) :
    ∃ f', st' = f' :: outer ∧ f'.kind = f.kind ∧ Inside f' (body ++ w) := by
  cases h with
  | array hbody =>
      cases hvalue
      have hnext := Inside.array (hbody.concat hw)
      have hmember : (!(body ++ w).isEmpty) = true := by simp [hw.ne_nil]
      rw [hmember] at hnext
      exact ⟨_, rfl, rfl, hnext⟩
  | object _ => cases hvalue
  | @pending body hbody =>
      cases hvalue
      have hnext := Inside.object (hbody.concat hw)
      have hmember : (!(body ++ Move.key :: w).isEmpty) = true := by simp
      rw [hmember] at hnext
      rw [List.append_assoc]
      exact ⟨_, rfl, rfl, hnext⟩
  | string n => cases hvalue

theorem key {sep : Separator} (h : Inside f body)
    (hkey : Stack.key (f :: outer) = .ok (sep, st')) :
    ∃ f', st' = f' :: outer ∧ f'.kind = f.kind ∧ Inside f' (body ++ [.key]) := by
  cases h with
  | array _ => cases hkey
  | object hbody =>
      cases hkey
      exact ⟨_, rfl, rfl, .pending hbody⟩
  | pending _ => cases hkey
  | string n => cases hkey

theorem chunk (h : Inside f body) (hchunk : Stack.chunk (f :: outer) = .ok ((), st')) :
    st' = f :: outer ∧ Inside f (body ++ [.chunk]) := by
  cases h with
  | array _ => cases hchunk
  | object _ => cases hchunk
  | pending _ => cases hchunk
  | string n =>
      cases hchunk
      refine ⟨rfl, ?_⟩
      rw [← List.replicate_succ']
      exact .string (n + 1)

/-- A container that may be closed is a value then. -/
theorem closed {f' : Frame} (h : Inside f body)
    (hpop : Stack.pop (f :: outer) = .ok (f', st')) :
    st' = Stack.markMember outer ∧ Phrase (.push f.kind :: (body ++ [.pop])) := by
  cases h with
  | array hbody =>
      cases hpop
      exact ⟨rfl, .array hbody⟩
  | object hbody =>
      cases hpop
      exact ⟨rfl, .object hbody⟩
  | pending _ => cases hpop
  | string n =>
      cases hpop
      exact ⟨rfl, .string n⟩

end Inside

/-- The moves that lead to open containers: before each of them stands what led to those around it,
and a value was allowed there. -/
inductive Traced : List Move → Stack → Prop
  | top {w} : Phrases w → Traced w []
  | inside {w st sep st' f body} : Traced w st → Stack.value st = .ok (sep, st') → Inside f body →
      Traced (w ++ .push f.kind :: body) (f :: st')

namespace Traced

variable {w u : List Move} {st st' : Stack}

theorem phrase {sep : Separator} (h : Traced w st) (hvalue : st.value = .ok (sep, st'))
    (hu : Phrase u) : Traced (w ++ u) st' := by
  cases h with
  | top hw =>
      cases hvalue
      exact .top (hw.concat hu)
  | inside hw hplace hbody =>
      obtain ⟨f', rfl, hkind, hnext⟩ := hbody.phrase hvalue hu
      have hinside := Traced.inside hw hplace hnext
      rw [hkind] at hinside
      rwa [List.append_assoc, List.cons_append]

/-- One more move that is allowed. -/
theorem move {m : Move} (h : Traced w st) (hmakes : m.Makes st st') : Traced (w ++ [m]) st' := by
  cases hmakes with
  | value hvalue => exact h.phrase hvalue .value
  | push kind hvalue => exact .inside h hvalue (.fresh kind)
  | key hkey =>
      cases h with
      | top _ => cases hkey
      | inside hw hplace hbody =>
          obtain ⟨f', rfl, hkind, hnext⟩ := hbody.key hkey
          have hinside := Traced.inside hw hplace hnext
          rw [hkind] at hinside
          rwa [List.append_assoc, List.cons_append]
  | chunk hchunk =>
      cases h with
      | top _ => cases hchunk
      | inside hw hplace hbody =>
          obtain ⟨rfl, hnext⟩ := hbody.chunk hchunk
          rw [List.append_assoc, List.cons_append]
          exact .inside hw hplace hnext
  | pop hpop =>
      cases h with
      | top _ => cases hpop
      | inside hw hplace hbody =>
          -- The closed container is a value where its start was.
          obtain ⟨rfl, hphrase⟩ := hbody.closed hpop
          rw [Stack.markMember_of_value hplace, List.append_assoc, List.cons_append]
          exact hw.phrase hplace hphrase

theorem of_replay? (h : replay? [] w = some st) : Traced w st := by
  induction w using List.reverseRecOn generalizing st with
  | nil =>
      cases h
      exact .top .nil
  | append_singleton w m ih =>
      rw [replay?_concat] at h
      obtain ⟨st₁, hw, hm⟩ := Option.bind_eq_some_iff.1 h
      exact (ih hw).move (Move.next?_eq_some_iff.1 hm)

end Traced

variable {st st' : Stack} {m : Move} {u w : List Move}

theorem replay?_of_makes (hmakes : m.Makes st st') (rest : List Move) :
    replay? st (m :: rest) = replay? st' rest := by
  rw [replay?_cons, hmakes.next?]
  rfl

theorem replay?_append_of_eq (h : replay? st u = some st') (w : List Move) :
    replay? st (u ++ w) = replay? st' w := by
  rw [replay?_append, h]
  rfl

theorem replay?_chunks (outer : Stack) (n : Nat) (rest : List Move) :
    replay? (⟨.string, false, false⟩ :: outer) (List.replicate n .chunk ++ rest) =
      replay? (⟨.string, false, false⟩ :: outer) rest := by
  induction n with
  | zero => rfl
  | succ n ih =>
      rw [List.replicate_succ, List.cons_append, replay?_of_makes (.chunk rfl), ih]

mutual

/-- A phrase is allowed where a value is, and does what a value does. -/
theorem Phrase.replay? {w : List Move} {st st' : Stack} {sep : Separator} :
    Phrase w → st.value = .ok (sep, st') → replay? st w = some st'
  | .value, hvalue => replay?_of_makes (.value hvalue) []
  | .array hbody, hvalue => by
    obtain ⟨hasMember, hinside⟩ := hbody.replay?_array false st'
    rw [replay?_of_makes (.push .array hvalue), replay?_append_of_eq hinside,
      replay?_of_makes (.pop rfl), Stack.markMember_of_value hvalue]
    rfl
  | .object hbody, hvalue => by
    obtain ⟨hasMember, hinside⟩ := hbody.replay?_object false st'
    rw [replay?_of_makes (.push .object hvalue), replay?_append_of_eq hinside,
      replay?_of_makes (.pop rfl), Stack.markMember_of_value hvalue]
    rfl
  | .string n, hvalue => by
    rw [replay?_of_makes (.push .string hvalue), replay?_chunks, replay?_of_makes (.pop rfl),
      Stack.markMember_of_value hvalue]
    rfl

theorem Phrases.replay?_array {w : List Move} :
    Phrases w → ∀ (hasMember : Bool) (outer : Stack), ∃ hasMember',
      replay? (⟨.array, hasMember, false⟩ :: outer) w = some (⟨.array, hasMember', false⟩ :: outer)
  | .nil, hasMember, _ => ⟨hasMember, rfl⟩
  | .cons hfirst hrest, hasMember, outer => by
    have hvalue : Stack.value (⟨.array, hasMember, false⟩ :: outer) =
        .ok (_, ⟨.array, true, false⟩ :: outer) := rfl
    obtain ⟨hasMember', hdone⟩ := hrest.replay?_array true outer
    exact ⟨hasMember', by rw [replay?_append_of_eq (hfirst.replay? hvalue), hdone]⟩

theorem Entries.replay?_object {w : List Move} :
    Entries w → ∀ (hasMember : Bool) (outer : Stack), ∃ hasMember',
      replay? (⟨.object, hasMember, false⟩ :: outer) w = some (⟨.object, hasMember', false⟩ :: outer)
  | .nil, hasMember, _ => ⟨hasMember, rfl⟩
  | .cons hfirst hrest, hasMember, outer => by
    have hvalue : Stack.value (⟨.object, hasMember, true⟩ :: outer) =
        .ok (_, ⟨.object, true, false⟩ :: outer) := rfl
    obtain ⟨hasMember', hdone⟩ := hrest.replay?_object true outer
    refine ⟨hasMember', ?_⟩
    rw [replay?_of_makes (.key rfl), replay?_append_of_eq (hfirst.replay? hvalue), hdone]

end

def Move.levelChange : Move → Int
  | push _ => 1
  | pop => -1
  | value | key | chunk => 0

theorem Move.Makes.level {m : Move} {st st' : Stack} (h : m.Makes st st') :
    (st'.level : Int) = st.level + m.levelChange := by
  unfold Stack.level
  cases h with
  | value h => rw [Stack.length_of_value h, Move.levelChange, add_zero]
  | key h => rw [Stack.length_of_key h, Move.levelChange, add_zero]
  | chunk h => rw [Stack.eq_of_chunk h, Move.levelChange, add_zero]
  | push kind h =>
      rw [List.length_cons, Stack.length_of_value h, Nat.cast_succ, Move.levelChange]
  | @pop _ _ f h =>
      have hlength := Stack.length_of_pop h
      cases st with
      | nil => cases h
      | cons f outer =>
          rw [List.length_cons, Nat.add_sub_cancel] at hlength
          rw [hlength, List.length_cons, Nat.cast_succ, Move.levelChange]
          omega

end JsonWriter.Tracker
