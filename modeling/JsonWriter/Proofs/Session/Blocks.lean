import JsonWriter.Proofs.Results
import JsonWriter.Session.Script

/-! Blocks are the calls they stand for: a program in which blocks are nested ends as a row of calls
without blocks does, each call made after the one before it and none after the first that fails. -/
namespace JsonWriter

/-- A step that is no block. -/
inductive FlatStep where
  | call (c : Call)
  | append (text : String)
  | raise (text : String)

mutual

/-- A block is the call that opens its container, its body, and the call that closes a container. -/
def Step.flat : Step → List FlatStep
  | .call c => [.call c]
  | .append text => [.append text]
  | .raise text => [.raise text]
  | .block kind body => .call (.start kind.frameKind) :: (Step.flatAll body ++ [.call .finish])

def Step.flatAll : List Step → List FlatStep
  | [] => []
  | step :: rest => step.flat ++ Step.flatAll rest

end

namespace Step

theorem flatAll_append (before after : List Step) :
    flatAll (before ++ after) = flatAll before ++ flatAll after := by
  induction before with
  | nil => rfl
  | cons step before ih =>
      rw [List.cons_append, flatAll, flatAll, ih, List.append_assoc]

/-- A step stands in a program so many blocks deep, after these calls. -/
inductive Within : Nat → List FlatStep → Step → List Step → Prop
  | here {before step rest} : Within 0 (flatAll before) step (before ++ step :: rest)
  | block {before kind body rest depth earlier step} : Within depth earlier step body →
      Within (depth + 1) (flatAll before ++ .call (.start kind.frameKind) :: earlier) step
        (before ++ .block kind body :: rest)

theorem Within.flatAll_eq {depth : Nat} {earlier : List FlatStep} {step : Step}
    {program : List Step} (h : Within depth earlier step program) :
    ∃ later, flatAll program = earlier ++ (step.flat ++ later) := by
  induction h with
  | @here before step rest =>
      refine ⟨flatAll rest, ?_⟩
      rw [flatAll_append, flatAll]
  | @block before kind body rest depth earlier step _ ih =>
      obtain ⟨later, hbody⟩ := ih
      refine ⟨later ++ (.call .finish :: flatAll rest), ?_⟩
      rw [flatAll_append, flatAll, flat, hbody]
      simp only [List.cons_append, List.append_assoc, List.nil_append]

end Step

variable {σ : Type} [Sink σ]

def FlatStep.run : FlatStep → Write σ Unit
  | call c => c.run
  | append text => Write.append text
  | raise text => throw (.raised text)

def resume (rest : Session σ → Session σ × Option Fault) :
    Session σ × Option Fault → Session σ × Option Fault
  | (s, none) => rest s
  | (s, some fault) => (s, some fault)

/-- Makes calls up to the first that fails: the session then, and the fault if there was one. -/
def FlatStep.runUntil (s : Session σ) : List FlatStep → Session σ × Option Fault
  | [] => (s, none)
  | step :: rest => resume (fun s => runUntil s rest) (outcome (step.run s))

section Runs

variable {s s' s₁ : Session σ} {fault : Fault}

omit [Sink σ] in
theorem outcome_eq_failed_iff {result : EStateM.Result Fault (Session σ) Unit} :
    outcome result = (s', some fault) ↔ result = .error fault s' := by
  cases result with
  | ok _ s => exact iff_of_false nofun nofun
  | error fault₁ s =>
      constructor
      · rintro ⟨⟩
        rfl
      · rintro ⟨⟩
        rfl

omit [Sink σ] in
theorem outcome_bind (first second : Write σ Unit) (s : Session σ) :
    outcome ((first >>= fun _ => second) s) =
      resume (fun s => outcome (second s)) (outcome (first s)) := by
  cases h : first s with
  | ok _ s₁ => rw [bind_ok h]; rfl
  | error fault s₁ => rw [bind_error h]; rfl

omit [Sink σ] in
theorem resume_resume (second third : Session σ → Session σ × Option Fault)
    (first : Session σ × Option Fault) :
    resume third (resume second first) = resume (fun s => resume third (second s)) first := by
  obtain ⟨s, _ | fault⟩ := first
  · rfl
  · rfl

namespace FlatStep

theorem runUntil_append (s : Session σ) (before after : List FlatStep) :
    runUntil s (before ++ after) = resume (fun s => runUntil s after) (runUntil s before) := by
  induction before generalizing s with
  | nil => rfl
  | cons step before ih =>
      rw [List.cons_append, runUntil, runUntil, resume_resume]
      exact congrArg (resume · (outcome (step.run s))) (funext ih)

theorem runUntil_singleton (s : Session σ) (step : FlatStep) :
    runUntil s [step] = outcome (step.run s) := by
  rw [runUntil]
  obtain ⟨s₁, _ | fault⟩ := outcome (step.run s)
  · rfl
  · rfl

/-- A failing run is cut at the first call that fails. -/
theorem runUntil_eq_failed_iff {steps : List FlatStep} :
    runUntil s steps = (s', some fault) ↔ ∃ before step after s₁,
      steps = before ++ step :: after ∧ runUntil s before = (s₁, none) ∧
        step.run s₁ = .error fault s' := by
  constructor
  · intro h
    induction steps generalizing s with
    | nil => cases h
    | cons step steps ih =>
        rw [runUntil] at h
        cases hrun : step.run s with
        | ok _ s₁ =>
            rw [hrun] at h
            obtain ⟨before, failing, after, s₂, rfl, hbefore, hfail⟩ := ih h
            refine ⟨step :: before, failing, after, s₂, rfl, ?_, hfail⟩
            rw [runUntil, hrun]
            exact hbefore
        | error fault₁ s₁ =>
            rw [hrun] at h
            cases h
            exact ⟨[], step, steps, s, rfl, rfl, hrun⟩
  · rintro ⟨before, step, after, s₁, rfl, hbefore, hfail⟩
    rw [runUntil_append, hbefore]
    change runUntil s₁ (step :: after) = _
    rw [runUntil, hfail]
    rfl

end FlatStep

end Runs

open FlatStep (runUntil runUntil_append runUntil_singleton)

mutual

/-- A step ends as the calls that it stands for. -/
theorem Step.outcome_run (s : Session σ) :
    ∀ step : Step, outcome (step.run s) = runUntil s step.flat
  | .call c => (runUntil_singleton s (.call c)).symm
  | .append text => (runUntil_singleton s (.append text)).symm
  | .raise text => (runUntil_singleton s (.raise text)).symm
  | .block kind body => by
    rw [run, flat, outcome_bind, runUntil]
    refine congrArg (resume · _) (funext fun s₁ => ?_)
    rw [outcome_bind, Step.outcome_runAll s₁ body, runUntil_append]
    exact congrArg (resume · _) (funext fun s₂ => (runUntil_singleton s₂ (.call .finish)).symm)

theorem Step.outcome_runAll (s : Session σ) :
    ∀ program : List Step, outcome (Step.runAll program s) = runUntil s (Step.flatAll program)
  | [] => rfl
  | step :: rest => by
    rw [runAll, flatAll, outcome_bind, runUntil_append, Step.outcome_run s step]
    exact congrArg (resume · _) (funext fun s₁ => Step.outcome_runAll s₁ rest)

end

namespace Step

variable {s s' s₁ : Session σ} {fault : Fault}

theorem Within.runAll_eq_error {depth : Nat} {earlier : List FlatStep} {step : Step}
    {program : List Step} (h : Within depth earlier step program)
    (hearlier : runUntil s earlier = (s₁, none)) (hfail : step.run s₁ = .error fault s') :
    runAll program s = .error fault s' := by
  obtain ⟨later, hflat⟩ := h.flatAll_eq
  apply outcome_eq_failed_iff.1
  rw [outcome_runAll, hflat, runUntil_append, hearlier]
  change runUntil s₁ (step.flat ++ later) = _
  rw [runUntil_append, ← outcome_run, hfail]
  rfl

theorem run_block_of_opened {kind : BlockKind} (body : List Step)
    (h : Write.start kind.frameKind s = .ok () s₁) :
    (block kind body).run s = (do runAll body; Write.finish) s₁ := by
  rw [run]
  exact bind_ok h

/-- Blocks are their flattened calls. A program ends in the same session and with the same fault as
the calls that it stands for, made up to the first that fails; so it fails just where one of these
does. Of the containers around a failing step none is closed: the program ends as that step did. A
block that cannot be opened runs no body; one that was opened ends as its body if that fails, and
otherwise with one more call, which closes what is innermost then. -/
theorem blocks_flatten (s : Session σ) (program : List Step) :
    outcome (runAll program s) = runUntil s (flatAll program) ∧
    (∀ fault s', runAll program s = .error fault s' ↔ ∃ before step after s₁,
      flatAll program = before ++ step :: after ∧ runUntil s before = (s₁, none) ∧
        step.run s₁ = .error fault s') ∧
    (∀ depth earlier step s₁ fault s', Within depth earlier step program →
      runUntil s earlier = (s₁, none) → step.run s₁ = .error fault s' →
      runAll program s = .error fault s') ∧
    ∀ (kind : BlockKind) (body : List Step),
      (∀ fault s', Write.start kind.frameKind s = .error fault s' →
        (block kind body).run s = .error fault s') ∧
      ∀ s₁, Write.start kind.frameKind s = .ok () s₁ →
        (∀ fault s', runAll body s₁ = .error fault s' →
          (block kind body).run s = .error fault s') ∧
        ∀ s₂, runAll body s₁ = .ok () s₂ → (block kind body).run s = Write.finish s₂ := by
  refine ⟨outcome_runAll s program, ?_, ?_, ?_⟩
  · intro fault s'
    rw [← outcome_eq_failed_iff, outcome_runAll]
    exact FlatStep.runUntil_eq_failed_iff
  · intro depth earlier step s₁ fault s' hwithin hearlier hfail
    exact hwithin.runAll_eq_error hearlier hfail
  · intro kind body
    refine ⟨?_, ?_⟩
    · intro fault s' hstart
      rw [run]
      exact bind_error hstart
    · intro s₁ hstart
      refine ⟨?_, ?_⟩
      · intro fault s' hbody
        exact (run_block_of_opened body hstart).trans (bind_error hbody)
      · intro s₂ hbody
        exact (run_block_of_opened body hstart).trans (bind_ok hbody)

/-- A container that a body leaves open is closed in place of the block's own. -/
example : (outcome (runAll [.block .array [.call (.start .array)], .call .null]
    (Session.start {} ({} : TextBuffer)))).1.sink.contents = "[[],null" := by decide

end Step
end JsonWriter
