import JsonWriter.Proofs.Emission.Failure
import JsonWriter.Proofs.Session.Related

/-! Properties of sessions that no call breaks, whether or not it fails: it is enough that the calls
of a single token keep them. -/
namespace JsonWriter
namespace Write

variable {σ α β : Type} {P : Session σ → Prop}

/-- A step keeps a property of sessions, also where it fails. -/
def Preserves (P : Session σ → Prop) (w : Write σ α) : Prop := ∀ s, P s → Leads w s P P

namespace Preserves

theorem pure (a : α) : Preserves P (Pure.pure a : Write σ α) := fun _ hs => hs

theorem throw (fault : Fault) : Preserves P (throw fault : Write σ α) := fun _ hs => hs

theorem bind {w : Write σ α} {w' : α → Write σ β} (h : Preserves P w)
    (h' : ∀ a, Preserves P (w' a)) : Preserves P (w >>= w') :=
  fun s hs => (h s hs).bind (fun a s₁ hs₁ => h' a s₁ hs₁) fun _ hs' => hs'

theorem outcome {w : Write σ Unit} {s : Session σ} (h : Preserves P w) (hs : P s) :
    P (outcome (w s)).1 := by
  have hleads := h s hs
  unfold Leads at hleads
  cases hrun : w s with
  | ok _ s' => rwa [hrun] at hleads
  | error fault s' => rwa [hrun] at hleads

end Preserves

/-- A step keeps a property of a session if it keeps the session related to itself, with the
property. -/
theorem preserves_iff_related {w : Write σ α} :
    Preserves P w ↔ Related (fun s t => s = t ∧ P s) w w := by
  unfold Preserves Leads
  constructor
  · rintro h s _ ⟨rfl, hs⟩
    have hleads := h s hs
    cases hrun : w s with
    | ok a s' =>
        rw [hrun] at hleads
        exact .ok a ⟨rfl, hleads⟩
    | error fault s' =>
        rw [hrun] at hleads
        exact .error fault ⟨rfl, hleads⟩
  · intro h s hs
    rcases (h s s ⟨rfl, hs⟩).ok_or_error with
      ⟨_, s', _, hrun, -, hsame⟩ | ⟨_, s', _, hrun, -, hsame⟩
    · rw [hrun]
      exact hsame.2
    · rw [hrun]
      exact hsame.2

theorem Preserves.forM {w : α → Write σ Unit} {as : List α} (h : ∀ a ∈ as, Preserves P (w a)) :
    Preserves P (as.forM w) :=
  preserves_iff_related.2 (.forM fun a ha => preserves_iff_related.1 (h a ha))

variable [Sink σ]

theorem preserves_token {c : Call} {m : Tracker.Move} (h : c.move? = some m)
    (huntouched : ∀ s s', P s → s.Untouched s' → P s')
    (happends : ∀ s s', P s → Appends s m (c.token s) s' → P s') :
    Preserves P (c.run : Write σ Unit) := by
  intro s hs
  have hatomic := atomic_call s h
  unfold Leads
  cases hrun : c.run s with
  | ok _ s' => exact happends s s' hs ((hatomic.ok_iff s').1 hrun)
  | error fault s' => exact huntouched s s' hs (hatomic.error fault s' hrun)

/-- Every call of a single token keeps a property. Of raw texts this is not asked. -/
def KeptByTokens (P : Session σ → Prop) : Prop :=
  ∀ (c : Call) (m : Tracker.Move), c.move? = some m → c.isRaw = false →
    Preserves P (c.run : Write σ Unit)

namespace KeptByTokens

theorem related (h : KeptByTokens P) :
    RelatedByTokens fun (s t : Session σ) => s = t ∧ P s :=
  fun c m hmove hraw => preserves_iff_related.1 (h c m hmove hraw)

theorem enclosed (h : KeptByTokens P) (kind : FrameKind) {body : Write σ Unit}
    (hbody : Preserves P body) : Preserves P (enclosed kind body) :=
  preserves_iff_related.2 (h.related.enclosed kind (preserves_iff_related.1 hbody))

theorem emit (h : KeptByTokens P) (sortKeys : Bool) (v : Value) :
    Preserves P (emit sortKeys v : Write σ Unit) :=
  preserves_iff_related.2 (h.related.emit sortKeys v)

theorem call (h : KeptByTokens P) {c : Call} (hc : c.isRaw = false) :
    Preserves P (c.run : Write σ Unit) :=
  preserves_iff_related.2 (h.related.call hc)

theorem anyCall (h : KeptByTokens P) (hraw : ∀ v, Preserves P (raw v : Write σ Unit)) (c : Call) :
    Preserves P (c.run : Write σ Unit) :=
  preserves_iff_related.2 (h.related.anyCall (fun v => preserves_iff_related.1 (hraw v)) c)

end KeptByTokens

/-- What every step of a list keeps, the list keeps, also where it ends early. -/
theorem Preserves.steps {steps : List Step}
    (h : ∀ step ∈ steps, Preserves P (step.run : Write σ Unit)) :
    Preserves P (Step.runAll steps : Write σ Unit) := by
  rw [Step.runAll_eq_forM]
  exact .forM h

end Write

/-- What every step of a script keeps holds after a run that goes on after failures. -/
theorem Session.preserved {σ : Type} [Sink σ] {P : Session σ → Prop} {s : Session σ}
    {script : List Step} (h : ∀ step ∈ script, Write.Preserves P (step.run : Write σ Unit))
    (hs : P s) : P (s.runAll script) := by
  induction script generalizing s with
  | nil => exact hs
  | cons step rest ih =>
      have hstep := h step List.mem_cons_self
      exact ih (fun next hnext => h next (List.mem_cons_of_mem step hnext)) (hstep.outcome hs)

end JsonWriter
