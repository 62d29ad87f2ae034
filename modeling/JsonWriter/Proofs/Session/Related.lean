import JsonWriter.Proofs.Emission.Calls
import JsonWriter.Session.Trace

/-! Sessions that are related and on which the same calls are made. Whatever the relation is, it is
enough that the calls of a single token keep it: then all calls do, whether or not they fail, and so
do scripts. -/
namespace JsonWriter

namespace Call

def isRaw : Call → Bool
  | raw _ => true
  | _ => false

end Call

namespace Write

variable {σ τ α β : Type} {Q : Session σ → Session τ → Prop}

/-- The same answer or the same fault, and sessions that are related. -/
inductive SameResult (Q : Session σ → Session τ → Prop) :
    EStateM.Result Fault (Session σ) α → EStateM.Result Fault (Session τ) α → Prop
  | ok (a : α) {s : Session σ} {t : Session τ} (h : Q s t) : SameResult Q (.ok a s) (.ok a t)
  | error (fault : Fault) {s : Session σ} {t : Session τ} (h : Q s t) :
      SameResult Q (.error fault s) (.error fault t)

theorem SameResult.ok_or_error {r : EStateM.Result Fault (Session σ) α}
    {r' : EStateM.Result Fault (Session τ) α} (h : SameResult Q r r') :
    (∃ a s t, r = .ok a s ∧ r' = .ok a t ∧ Q s t) ∨
      ∃ fault s t, r = .error fault s ∧ r' = .error fault t ∧ Q s t := by
  cases h with
  | ok a h => exact .inl ⟨a, _, _, rfl, rfl, h⟩
  | error fault h => exact .inr ⟨fault, _, _, rfl, rfl, h⟩

/-- Steps with the same results wherever they start from related sessions. -/
def Related (Q : Session σ → Session τ → Prop) (w : Write σ α) (w' : Write τ α) : Prop :=
  ∀ s t, Q s t → SameResult Q (w s) (w' t)

namespace Related

theorem pure (a : α) : Related Q (Pure.pure a) (Pure.pure a) := fun _ _ h => .ok a h

theorem throw (fault : Fault) :
    Related Q (throw fault : Write σ α) (throw fault : Write τ α) := fun _ _ h => .error fault h

theorem bind {w : Write σ α} {w' : Write τ α} {rest : α → Write σ β} {rest' : α → Write τ β}
    (h : Related Q w w') (hrest : ∀ a, Related Q (rest a) (rest' a)) :
    Related Q (w >>= rest) (w' >>= rest') := by
  intro s t hst
  rcases (h s t hst).ok_or_error with ⟨a, s₁, t₁, hw, hw', h₁⟩ | ⟨fault, s₁, t₁, hw, hw', h₁⟩
  · rw [bind_ok hw, bind_ok hw']
    exact hrest a s₁ t₁ h₁
  · rw [bind_error hw, bind_error hw']
    exact .error fault h₁

theorem check (x : Except Fault α) : Related Q (check x) (check x) := by
  cases x with
  | ok a => exact .pure a
  | error fault => exact .throw fault

theorem forM {w : α → Write σ Unit} {w' : α → Write τ Unit} {as : List α}
    (h : ∀ a ∈ as, Related Q (w a) (w' a)) : Related Q (as.forM w) (as.forM w') := by
  induction as with
  | nil => exact .pure ()
  | cons a as ih =>
      have hrest := ih fun b hb => h b (List.mem_cons_of_mem a hb)
      exact (h a List.mem_cons_self).bind fun _ => hrest

end Related

variable [Sink σ] [Sink τ]

/-- Every call of a single token keeps sessions related. Of raw texts this is not asked. -/
def RelatedByTokens (Q : Session σ → Session τ → Prop) : Prop :=
  ∀ (c : Call) (m : Tracker.Move), c.move? = some m → c.isRaw = false → Related Q c.run c.run

namespace RelatedByTokens

variable (h : RelatedByTokens Q)
include h

theorem key (v : Value) : Related Q (key v) (key v) := h (.key v) .key rfl rfl

theorem string (v : Value) : Related Q (string v) (string v) := h (.string v) .value rfl rfl

theorem null : Related Q null null := h .null .value rfl rfl

theorem bool (v : Value) : Related Q (bool v) (bool v) := h (.bool v) .value rfl rfl

theorem integer (v : Value) : Related Q (integer v) (integer v) := h (.integer v) .value rfl rfl

theorem float (v precision : Value) : Related Q (float v precision) (float v precision) :=
  h (.float v precision) .value rfl rfl

theorem enclosed (kind : FrameKind) {body : Write σ Unit} {body' : Write τ Unit}
    (hbody : Related Q body body') : Related Q (enclosed kind body) (enclosed kind body') :=
  (h (.start kind) (.push kind) rfl rfl).bind fun _ =>
    hbody.bind fun _ => h .finish .pop rfl rfl

theorem keyIfPresent (k v : Value) : Related Q (keyIfPresent k v) (keyIfPresent k v) := by
  by_cases hkind : v.kind = .null
  · cases v with
    | null => exact .pure ()
    | _ => cases hkind
  · rw [keyIfPresent_of_not_null k hkind, keyIfPresent_of_not_null k hkind]
    exact (h.key k).bind fun _ => h.string v

theorem strings (skipNull items : Value) :
    Related Q (strings skipNull items) (strings skipNull items) := by
  refine (Related.check _).bind ?_
  intro texts
  refine h.enclosed .array (.forM ?_)
  intro t _
  cases t with
  | some t => exact h.string (.text t)
  | none =>
      cases skipNull.isTrue with
      | true => exact .pure ()
      | false => exact h.null

theorem stringPairs (v : Value) : Related Q (stringPairs v) (stringPairs v) := by
  refine (Related.check _).bind ?_
  intro ps
  refine h.enclosed .object (.forM ?_)
  rintro ⟨k, t⟩ _
  exact (h.key (.text k)).bind fun _ => h.string (.text t)

theorem emit (sortKeys : Bool) (v : Value) : Related Q (emit sortKeys v) (emit sortKeys v) := by
  induction v using Value.inductionOnParts sortKeys with
  | step v ih =>
      cases hopens : v.opens? with
      | some kind =>
          rw [emit_of_opens hopens, emit_of_opens hopens]
          refine h.enclosed kind (.forM ?_)
          intro row hrow
          have hlead : Related Q (Act.runAll row.1) (Act.runAll row.1) := by
            rcases Value.lead_of_mem_rows hrow with hnone | ⟨k, hkey⟩
            · rw [hnone]
              exact .pure ()
            · rw [hkey, Act.runAll_singleton, Act.runAll_singleton]
              exact h.key (.text k)
          exact hlead.bind fun _ => ih row.2 (Value.mem_parts_of_mem_rows hrow)
      | none =>
          cases v with
          | null =>
              rw [Write.emit, Write.emit]
              exact h.null
          | bool b =>
              rw [Write.emit, Write.emit]
              exact h.bool (.bool b)
          | int n =>
              -- Whether the numeral is too long does not matter here.
              rw [Write.emit, Write.emit]
              generalize Value.int n = v
              exact h.integer v
          | float x =>
              rw [Write.emit, Write.emit]
              exact h.float (.float x) .null
          | text t =>
              rw [Write.emit, Write.emit]
              exact h.string (.text t)
          | pairs p =>
              rw [Write.emit, Write.emit]
              exact h.stringPairs (.pairs p)
          | list items | tuple items => cases hopens
          | mapping entries =>
              simp only [Value.opens?] at hopens
              split at hopens
              · cases hopens
              · rename_i hkeys
                obtain ⟨kind, hkeys⟩ := Option.ne_none_iff_exists'.1 hkeys
                rw [emit_mapping_of_key sortKeys hkeys, emit_mapping_of_key sortKeys hkeys]
                exact .throw _
          | set _ | bytes _ | unknown | path _ | settings _ => exact .throw _

theorem call {c : Call} (hc : c.isRaw = false) : Related Q c.run c.run := by
  cases c with
  | raw v => cases hc
  | null => exact h.null
  | bool v => exact h.bool v
  | integer v => exact h.integer v
  | float v precision => exact h.float v precision
  | string v => exact h.string v
  | start kind => exact h (.start kind) (.push kind) rfl rfl
  | chunk v => exact h (.chunk v) .chunk rfl rfl
  | finish => exact h .finish .pop rfl rfl
  | key v => exact h.key v
  | keyIfPresent k v => exact h.keyIfPresent k v
  | strings skipNull items => exact h.strings skipNull items
  | stringPairs v => exact h.stringPairs v
  | emit sortKeys v => exact h.emit sortKeys v

theorem anyCall (hraw : ∀ v, Related Q (raw v) (raw v)) (c : Call) : Related Q c.run c.run := by
  cases hc : c.isRaw with
  | false => exact h.call hc
  | true =>
      cases c with
      | raw v => exact hraw v
      | _ => cases hc

end RelatedByTokens
end Write

variable {σ τ : Type} {Q : Session σ → Session τ → Prop} {s : Session σ} {t : Session τ}

namespace Trace

/-- Traces of the same steps: each of them, also in a block, has the same fault or none, and the
sessions before and after it are related. -/
inductive Related (Q : Session σ → Session τ → Prop) : Trace σ → Trace τ → Prop
  | entry {s s' : Session σ} {t t' : Session τ} (fault : Option Fault)
      {body : Option (List (Trace σ))} {body' : Option (List (Trace τ))}
      (hbefore : Q s t) (hafter : Q s' t')
      (hbody : Option.Rel (List.Forall₂ (Related Q)) body body') :
      Related Q (.entry s s' fault body) (.entry t t' fault body')

theorem Related.outcome {a : Trace σ} {b : Trace τ} (h : a.Related Q b) :
    ∃ s' t' fault, a.outcome = (s', fault) ∧ b.outcome = (t', fault) ∧ Q s' t' := by
  cases h with
  | entry fault _ hafter _ => exact ⟨_, _, fault, rfl, rfl, hafter⟩

theorem related_outcomeOf {traces : List (Trace σ)} {traces' : List (Trace τ)} (hst : Q s t)
    (h : List.Forall₂ (Related Q) traces traces') :
    ∃ s' t' fault, outcomeOf s traces = (s', fault) ∧ outcomeOf t traces' = (t', fault) ∧
      Q s' t' := by
  induction h with
  | nil => exact ⟨s, t, none, rfl, rfl, hst⟩
  | cons hfirst hrest ih =>
      cases hrest with
      | nil => exact hfirst.outcome
      | cons _ _ => exact ih

theorem related_ofResult {r : EStateM.Result Fault (Session σ) Unit}
    {r' : EStateM.Result Fault (Session τ) Unit} {body : Option (List (Trace σ))}
    {body' : Option (List (Trace τ))} (hst : Q s t) (h : Write.SameResult Q r r')
    (hbody : Option.Rel (List.Forall₂ (Related Q)) body body') :
    (ofResult s r body).Related Q (ofResult t r' body') := by
  cases h with
  | ok _ h => exact .entry none hst h hbody
  | error fault h => exact .entry (some fault) hst h hbody

end Trace

section Scripts

variable [Sink σ] [Sink τ]

structure Call.KeepRelated (Q : Session σ → Session τ → Prop) : Prop where
  call : ∀ c : Call, Write.Related Q c.run c.run
  append : ∀ text : String, Write.Related Q (Write.append text) (Write.append text)

mutual

theorem Step.related_trace (h : Call.KeepRelated Q) {s : Session σ} {t : Session τ} (hst : Q s t) :
    ∀ step : Step, (step.trace s).Related Q (step.trace t)
  | .call c => Trace.related_ofResult hst (h.call c s t hst) .none
  | .append text => Trace.related_ofResult hst (h.append text s t hst) .none
  | .raise text => .entry (some (.raised text)) hst hst .none
  | .block kind body => by
    have hstart := h.call (.start kind.frameKind) s t hst
    simp only [Call.run] at hstart
    simp only [Step.trace]
    rcases hstart.ok_or_error with ⟨_, s₁, t₁, hs, ht, h₁⟩ | ⟨fault, s₁, t₁, hs, ht, h₁⟩
    · have htraces := Step.related_traceAll h h₁ body
      obtain ⟨s₂, t₂, fault?, hs₂, ht₂, h₂⟩ := Trace.related_outcomeOf h₁ htraces
      simp only [hs, ht, hs₂, ht₂]
      cases fault? with
      | none => exact Trace.related_ofResult hst (h.call .finish s₂ t₂ h₂) (.some htraces)
      | some fault => exact .entry (some fault) hst h₂ (.some htraces)
    · simp only [hs, ht]
      exact .entry (some fault) hst h₁ (.some .nil)

theorem Step.related_traceAll (h : Call.KeepRelated Q) {s : Session σ} {t : Session τ}
    (hst : Q s t) : ∀ steps : List Step,
      List.Forall₂ (Trace.Related Q) (Step.traceAll s steps) (Step.traceAll t steps)
  | [] => .nil
  | step :: rest => by
    have hfirst := Step.related_trace h hst step
    obtain ⟨s₁, t₁, fault?, hs₁, ht₁, h₁⟩ := hfirst.outcome
    simp only [Step.traceAll, hs₁, ht₁]
    cases fault? with
    | none => exact .cons hfirst (Step.related_traceAll h h₁ rest)
    | some fault => exact .cons hfirst .nil

end

theorem Session.related_traceAll (h : Call.KeepRelated Q) (hst : Q s t) (script : List Step) :
    List.Forall₂ (Trace.Related Q) (s.traceAll script) (t.traceAll script) := by
  induction script generalizing s t with
  | nil => exact .nil
  | cons step rest ih =>
      have hfirst := Step.related_trace h hst step
      obtain ⟨s₁, t₁, fault?, hs₁, ht₁, h₁⟩ := hfirst.outcome
      simp only [Session.traceAll, hs₁, ht₁]
      exact .cons hfirst (ih h₁)

theorem Session.related_runAll (h : Call.KeepRelated Q) (hst : Q s t) (script : List Step) :
    Q (s.runAll script) (t.runAll script) := by
  obtain ⟨s', t', fault?, hs', ht', h'⟩ :=
    Trace.related_outcomeOf hst (Session.related_traceAll h hst script)
  rw [← Session.outcomeOf_traceAll, ← Session.outcomeOf_traceAll, hs', ht']
  exact h'

end Scripts
end JsonWriter
