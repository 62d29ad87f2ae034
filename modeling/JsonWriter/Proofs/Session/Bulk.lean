import JsonWriter.Proofs.Emission.Position
import JsonWriter.Proofs.Session.Arguments
import JsonWriter.Proofs.Session.Atomic
import JsonWriter.Value.Keys

/-! Calls that write a whole collection of strings. The collection is looked at first; then the
container can fail only where it is opened. -/
namespace JsonWriter

open Tracker

variable {σ : Type} [Sink σ]

namespace Write

variable {s s' s₁ : Session σ} {fault : Fault} {sortKeys : Bool}

theorem room_of_start {kind : FrameKind} (h : start kind s = .ok () s₁) :
    ∃ (sep : Separator) (st : Stack), s.stack.value = .ok (sep, st) ∧
      s₁.stack = { kind } :: st ∧ Value.tooDeep? s.tracker.limit s.level = none := by
  have hatomic : Atomic (start kind) s (.push kind) (.ok kind.opener) :=
    atomic_call s (c := .start kind) rfl
  obtain ⟨text, a, t', -, hmove, rfl⟩ := (hatomic.ok_iff s₁).1 h
  obtain ⟨st₁, hact, -⟩ := Move.run_eq_ok hmove
  obtain ⟨sep, st, -, hvalue, rfl⟩ := Move.push_eq_ok hmove
  refine ⟨sep, st, hvalue, rfl, ?_⟩
  have hroom := (Move.act_eq_ok_iff.1 hact).2
  unfold Value.tooDeep?
  cases hlimit : s.tracker.limit with
  | none => rfl
  | some n =>
      have hlt := hroom kind n rfl hlimit
      exact if_neg (not_le.2 hlt)

/-- A container of texts and nulls is written whole wherever it can be opened. -/
theorem emit_ok_of_start {v : Value} {kind : FrameKind}
    (hoffence : ∀ limit level, Value.offence? limit level v = Value.tooDeep? limit level)
    (hparts : ∀ u ∈ v.parts sortKeys, u.kind = .null ∨ u.kind = .text)
    (h : start kind s = .ok () s₁) : ∃ s', emit sortKeys v s = .ok () s' := by
  obtain ⟨sep, st, hvalue, -, hroom⟩ := room_of_start h
  have hfaultless : (v.parts sortKeys).findSome?
      (Value.fault? s.tracker.limit sortKeys (s.level + 1)) = none := by
    rw [List.findSome?_eq_none_iff]
    intro u hu
    cases u with
    | null | text _ => rw [Value.fault?_of_no_parts rfl]; rfl
    | _ => rcases hparts _ hu with hkind | hkind <;> cases hkind
  have hends := emits sortKeys v s sep st hvalue
  rw [Value.fault?_eq, hoffence, hroom, hfaultless] at hends
  obtain ⟨s', hemit, -⟩ := hends
  exact ⟨s', hemit⟩

/-- A container that is written whole wherever it can be opened leaves no trace when it fails. -/
theorem untouched_of_enclosed {kind : FrameKind} {body : Write σ Unit}
    (hbody : ∀ s₁, start kind s = .ok () s₁ → ∃ s', enclosed kind body s = .ok () s')
    (h : enclosed kind body s = .error fault s') : s.Untouched s' := by
  rcases bind_eq_error h with hstart | ⟨_, s₁, hstart, -⟩
  · exact (atomic_call s (c := .start kind) rfl).error fault s' hstart
  · obtain ⟨s₂, hok⟩ := hbody s₁ hstart
    rw [hok] at h
    cases h

/-- A pair list is written wherever an object can be opened. -/
theorem emit_pairs_ok_of_start (p : PairList) (h : start .object s = .ok () s₁) :
    ∃ s', emit sortKeys (.pairs p) s = .ok () s' := by
  refine emit_ok_of_start (fun _ _ => rfl) ?_ h
  intro u hu
  obtain ⟨e, -, rfl⟩ := List.mem_map.1 hu
  exact .inr rfl

theorem untouched_of_emit_pairs {p : PairList}
    (h : emit sortKeys (.pairs p) s = .error fault s') : s.Untouched s' := by
  rw [emit_pairs] at h
  refine untouched_of_enclosed ?_ h
  intro s₁ hstart
  rw [← emit_pairs]
  exact emit_pairs_ok_of_start p hstart

end Write

namespace Value

end Value

namespace Step

def enclosing (kind : FrameKind) (body : List Step) : List Step :=
  .call (.start kind) :: (body ++ [.call .finish])

theorem runAll_eq_forM (steps : List Step) : (runAll steps : Write σ Unit) = steps.forM run := by
  induction steps with
  | nil => rfl
  | cons step steps ih =>
      rw [runAll, ih]
      rfl

theorem runAll_enclosing (kind : FrameKind) (body : List Step) :
    (runAll (enclosing kind body) : Write σ Unit) = Write.enclosed kind (runAll body) := by
  have hbody : ((body ++ [Step.call .finish]).forM run : Write σ Unit) = (do
      body.forM run
      Write.finish
      pure ()) := List.forM_append
  rw [runAll_eq_forM, runAll_eq_forM]
  change (do Write.start kind; (body ++ [Step.call .finish]).forM run) = _
  rw [hbody, bind_pure_unit]
  rfl

end Step

namespace Write

variable {s s' s₁ : Session σ} {fault : Fault} {sortKeys : Bool}

theorem stringPairs_eq {v : Value} {ps : List (String × String)} (h : pairsOf v = .ok ps) :
    (stringPairs v : Write σ Unit) =
      enclosed .object (ps.forM fun p => stringMember p.1 p.2) := by
  unfold stringPairs
  rw [h]
  rfl

theorem stringPairs_eq_emit {v : Value} {ps : List (String × String)} (h : pairsOf v = .ok ps) :
    (stringPairs v : Write σ Unit) = emit false (.pairs ⟨ps⟩) := by
  rw [emit, stringPairs_eq h, stringPairs_eq (pairsOf_pairs ⟨ps⟩)]

end Write
end JsonWriter
