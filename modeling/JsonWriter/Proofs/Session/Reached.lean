import JsonWriter.Proofs.Session.Kept

/-! What is so of the open containers in every tracker and every session, whatever was tried, with
whatever values, and whether or not it failed. -/
namespace JsonWriter

open Tracker

/-- What holds of a tracker under a limit. Besides its open containers being as they must be, to
close one changes nothing in those around it, and one that was opened and closed again, whatever was
tried meanwhile, leaves what a single value would have left. -/
structure Tracker.Settled (limit : Option Int) (t : Tracker) : Prop where
  limit_eq : t.limit = limit
  sound : t.stack.Sound limit
  pop : ∀ a t', Move.pop.run t = .ok a t' → ∃ f, a = .frame f ∧ t.stack = f :: t'.stack
  closed : ∀ kind a b t₁ t' tried, (Move.push kind).run t = .ok a t₁ →
    (∀ begun, begun <+: tried → t.level < (t₁.runAll begun).level) →
    Move.pop.run (t₁.runAll tried) = .ok b t' → t'.level = t.level →
    ∃ t₀, Move.value.run t = .ok a t₀ ∧ t'.stack = t₀.stack

theorem Tracker.settled_of_sound {limit : Option Int} {t : Tracker} (hlimit : t.limit = limit)
    (h : t.stack.Sound limit) : t.Settled limit where
  limit_eq := hlimit
  sound := h
  pop := by
    intro a t' hpop
    obtain ⟨f, st, rfl, hclosed, rfl⟩ := Move.pop_eq_ok hpop
    exact ⟨f, rfl, h.pop hclosed⟩
  closed := by
    intro kind a b t₁ t' tried hpush hopen hpop hlevel
    exact value_of_closed hpush hopen hpop hlevel

variable {σ : Type} {limit : Option Int}

/-- A session has a limit, and its open containers are as they must be. -/
structure Session.Sound (limit : Option Int) (s : Session σ) : Prop where
  limit_eq : s.tracker.limit = limit
  stack : s.stack.Sound limit

theorem Session.Sound.untouched {s s' : Session σ} (h : s.Sound limit) (h' : s.Untouched s') :
    s'.Sound limit where
  limit_eq := h'.limit.trans h.limit_eq
  stack := by
    rw [h'.stack]
    exact h.stack

theorem Session.Sound.move {s s' : Session σ} {m : Move} {a : Answer} (h : s.Sound limit)
    (hmove : m.run s.tracker = .ok a s'.tracker) : s'.Sound limit := by
  obtain ⟨st, hact, htracker⟩ := Move.run_eq_ok hmove
  rw [h.limit_eq] at hact
  refine ⟨?_, ?_⟩
  · rw [htracker]
    exact h.limit_eq
  · unfold Session.stack
    rw [htracker]
    exact h.stack.act hact

namespace Write

def KeepsSound {α : Type} (limit : Option Int) (w : Write σ α) : Prop :=
  ∀ s, s.Sound limit → Leads w s (Session.Sound limit) (Session.Sound limit)

theorem KeepsSound.move (m : Move) : KeepsSound limit (track m.run : Write σ Answer) := by
  intro s hs
  unfold Leads
  cases hmove : m.run s.tracker with
  | ok a t' =>
      rw [track_of_run hmove]
      exact hs.move hmove
  | error cause t' =>
      rw [track_of_refused hmove]
      exact hs.untouched (Session.untouched_of_refused hmove)

variable [Sink σ]

theorem KeepsSound.token {c : Call} {m : Move} (h : c.move? = some m) :
    KeepsSound limit (c.run : Write σ Unit) := by
  apply preserves_token h
  · intro s s' hs huntouched
    exact hs.untouched huntouched
  · rintro s s' hs ⟨text, a, t', -, hmove, rfl⟩
    exact hs.move hmove

theorem keptByTokens_sound : KeptByTokens (Session.Sound limit : Session σ → Prop) :=
  fun _ _ h _ => KeepsSound.token h

theorem KeepsSound.raw (v : Value) : KeepsSound limit (raw v : Write σ Unit) := by
  by_cases hkind : v.kind = .text
  · cases v with
    | text t => exact .token (c := .raw (.text t)) rfl
    | _ => cases hkind
  · rw [raw_of_not_text hkind]
    exact Preserves.bind (KeepsSound.move .value) fun _ => .throw _

end Write

variable [Sink σ]

open Write

theorem Call.keepsSound (c : Call) : KeepsSound limit (c.run : Write σ Unit) :=
  keptByTokens_sound.anyCall KeepsSound.raw c

mutual

theorem Step.keepsSound : ∀ step : Step, KeepsSound limit (step.run : Write σ Unit)
  | .call c => c.keepsSound
  | .append text => fun _ hs => ⟨hs.limit_eq, hs.stack⟩
  | .raise text => Preserves.throw (.raised text)
  | .block kind body => by
    have hbody : KeepsSound limit (Step.runAll body : Write σ Unit) := Step.keepsSoundAll body
    rw [Step.run]
    exact keptByTokens_sound.enclosed kind.frameKind hbody

theorem Step.keepsSoundAll :
    ∀ steps : List Step, KeepsSound limit (Step.runAll steps : Write σ Unit)
  | [] => Preserves.pure ()
  | step :: rest => by
    rw [Step.runAll]
    exact Preserves.bind (Step.keepsSound step) fun _ => Step.keepsSoundAll rest

end

omit [Sink σ] in
theorem Session.sound_start (settings : Settings) (sink : σ) :
    (Session.start settings sink).Sound (settings.maxNesting.map Int.ofNat) where
  limit_eq := rfl
  stack := .nil _

theorem Session.Sound.runAll {s : Session σ} (h : s.Sound limit) (script : List Step) :
    (s.runAll script).Sound limit :=
  Session.preserved (fun step _ => step.keepsSound) h

/-- Whatever moves were tried, and whatever steps were run, the open containers are as they must
be. -/
theorem Tracker.settled_of_reached :
    (∀ (limit : Option Int) (tried : List Move),
      (runAll { limit } tried).Settled limit) ∧
    ∀ (σ : Type) [Sink σ] (settings : Settings) (sink : σ) (script : List Step),
      ((Session.start settings sink).runAll script).tracker.Settled
        (settings.maxNesting.map Int.ofNat) := by
  refine ⟨?_, ?_⟩
  · intro limit tried
    have hsound : (runAll { limit } tried).stack.Sound limit :=
      sound_runAll (t := { limit }) (.nil limit) tried
    exact settled_of_sound (limit_runAll { limit } tried) hsound
  · intro σ _ settings sink script
    have hsound := (Session.sound_start settings sink).runAll script
    exact settled_of_sound hsound.limit_eq hsound.stack

end JsonWriter
