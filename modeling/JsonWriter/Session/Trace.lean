import JsonWriter.Session.Script

/-! What can be watched while a script runs: the session before and after each step, how the step
failed, and the same for the steps of a block. `Step.outcome_trace` says that watching changes
nothing. -/
namespace JsonWriter

inductive Trace (σ : Type) where
  | entry (before after : Session σ) (fault : Option Fault) (body : Option (List (Trace σ)))

variable {σ : Type}

def Trace.outcome : Trace σ → Session σ × Option Fault
  | entry _ after fault _ => (after, fault)

/-- The outcome of steps that began in a session: that of the last one traced. -/
def Trace.outcomeOf (s : Session σ) (traces : List (Trace σ)) : Session σ × Option Fault :=
  match traces.getLast? with
  | none => (s, none)
  | some last => last.outcome

def Trace.ofResult (before : Session σ) (result : EStateM.Result Fault (Session σ) Unit)
    (body : Option (List (Trace σ))) : Trace σ :=
  entry before (JsonWriter.outcome result).1 (JsonWriter.outcome result).2 body

variable [Sink σ]

mutual

def Step.trace (s : Session σ) : Step → Trace σ
  | .block kind body =>
    match Write.start kind.frameKind s with
    | .error fault opened => .entry s opened (some fault) (some [])
    | .ok _ opened =>
      let traces := Step.traceAll opened body
      match Trace.outcomeOf opened traces with
      | (after, some fault) => .entry s after (some fault) (some traces)
      | (after, none) => .ofResult s (Write.finish after) (some traces)
  | .call c => .ofResult s (c.run s) none
  | .append text => .ofResult s (Write.append text s) none
  | .raise text => .entry s s (some (.raised text)) none

def Step.traceAll (s : Session σ) : List Step → List (Trace σ)
  | [] => []
  | step :: rest =>
    let first := step.trace s
    match first.outcome with
    | (_, some _) => [first]
    | (after, none) => first :: Step.traceAll after rest

end

def Session.traceAll (s : Session σ) : List Step → List (Trace σ)
  | [] => []
  | step :: rest =>
    let first := step.trace s
    first :: Session.traceAll first.outcome.1 rest

namespace Trace

omit [Sink σ] in
theorem outcomeOf_cons {t : Trace σ} {after : Session σ} (h : t.outcome = (after, none))
    (s : Session σ) (traces : List (Trace σ)) :
    outcomeOf s (t :: traces) = outcomeOf after traces := by
  cases traces with
  | nil => exact h
  | cons next rest => simp [outcomeOf, List.getLast?_cons]

omit [Sink σ] in
theorem fst_outcomeOf_cons (s : Session σ) (t : Trace σ) (traces : List (Trace σ)) :
    (outcomeOf s (t :: traces)).1 = (outcomeOf t.outcome.1 traces).1 := by
  cases traces with
  | nil => rfl
  | cons next rest => simp [outcomeOf, List.getLast?_cons]

end Trace

mutual

/-- A traced step ends as the step does when it is run. -/
theorem Step.outcome_trace (s : Session σ) :
    ∀ step : Step, (step.trace s).outcome = JsonWriter.outcome (step.run s)
  | .call _ => rfl
  | .append _ => rfl
  | .raise _ => rfl
  | .block kind body => by
    simp only [trace, run, bind, EStateM.bind]
    cases Write.start kind.frameKind s with
    | error fault opened => rfl
    | ok _ opened =>
      have ih := Step.outcomeOf_traceAll opened body
      simp only
      cases h : Step.runAll body opened with
      | error fault after => simp only [ih, h]; rfl
      | ok _ after => simp only [ih, h]; rfl

theorem Step.outcomeOf_traceAll (s : Session σ) :
    ∀ steps, Trace.outcomeOf s (Step.traceAll s steps) = JsonWriter.outcome (Step.runAll steps s)
  | [] => rfl
  | step :: rest => by
    have ih := Step.outcome_trace s step
    simp only [traceAll, runAll, bind, EStateM.bind]
    cases h : step.run s with
    | error fault after =>
      rw [h] at ih
      have ih : (step.trace s).outcome = (after, some fault) := ih
      simp only [ih]
      exact ih
    | ok _ after =>
      rw [h] at ih
      have ih : (step.trace s).outcome = (after, none) := ih
      simp only [ih, Trace.outcomeOf_cons ih]
      exact Step.outcomeOf_traceAll after rest

end

theorem Session.outcomeOf_traceAll (s : Session σ) (script : List Step) :
    (Trace.outcomeOf s (s.traceAll script)).1 = s.runAll script := by
  induction script generalizing s with
  | nil => rfl
  | cons step rest ih =>
    simp only [traceAll, Trace.fst_outcomeOf_cons, ih, Step.outcome_trace]
    rfl

end JsonWriter
