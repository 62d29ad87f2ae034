import JsonWriter.Proofs.Nesting.Sound
import JsonWriter.Proofs.Session.Growth
import JsonWriter.Session.Script

/-! Calls of a single token: each makes one move and appends one text, or leaves no trace but in the
log. -/
namespace JsonWriter

open Tracker

/-- The text that stands between a token and what was written before it. -/
def Tracker.Answer.lead : Answer → String
  | separator sep => sep.text
  | nothing | frame _ => ""

namespace Call

/-- The move that a call makes, where the call is one of a single token. -/
def move? : Call → Option Move
  | raw (.text _) | null | bool _ | integer _ | float _ _ | string _ => some .value
  | start kind => some (.push kind)
  | chunk _ => some .chunk
  | finish => some .pop
  | key _ => some .key
  | raw _ | keyIfPresent _ _ | strings _ _ | stringPairs _ | emit _ _ => none

/-- The token that a call writes in a session, if its values are of use. -/
def token {σ : Type} (s : Session σ) : Call → Except Fault String
  | raw (.text t) => .ok t
  | null => .ok "null"
  | bool v => .ok (Scalar.bool v)
  | integer v => Scalar.integer v
  | float v precision => Scalar.float v (precision.orElse (.int s.settings.floatPrecision))
  | string v => Scalar.quote v
  | start kind => .ok kind.opener
  | chunk v => Scalar.escape v
  | finish => .ok ((s.tracker.top?.map (·.kind.closer)).getD "")
  | key v => (Scalar.quote v).map (· ++ ":")
  | raw _ | keyIfPresent _ _ | strings _ _ | stringPairs _ | emit _ _ => .ok ""

end Call

variable {σ : Type}

/-- A session after a step that left no trace but in the log. -/
structure Session.Untouched (s s' : Session σ) : Prop where
  settings : s'.settings = s.settings
  sink : s'.sink = s.sink
  stack : s'.stack = s.stack
  limit : s'.tracker.limit = s.tracker.limit

namespace Session

variable {s s' s'' : Session σ} {m : Move} {t' : Tracker}

theorem Untouched.refl (s : Session σ) : s.Untouched s := ⟨rfl, rfl, rfl, rfl⟩

theorem untouched_of_refused {cause : Violation} (h : m.run s.tracker = .error cause t') :
    s.Untouched { s with tracker := t' } := by
  obtain ⟨-, rfl⟩ := Move.run_eq_error h
  exact ⟨rfl, rfl, rfl, rfl⟩

end Session

namespace Write

theorem track_map {α β : Type} (f : α → β) (step : EStateM Violation Tracker α) :
    (track (f <$> step) : Write σ β) = f <$> track step := by
  funext s
  change track (EStateM.map f step) s = EStateM.map f (track step) s
  unfold track EStateM.map
  cases h : step s.tracker <;> simp only [h]

variable {s : Session σ} {m : Move} {a : Answer} {t' : Tracker}

theorem track_of_run (h : m.run s.tracker = .ok a t') :
    track m.run s = .ok a { s with tracker := t' } := by
  simp only [track, h]

theorem track_of_refused {cause : Violation} (h : m.run s.tracker = .error cause t') :
    track m.run s = .error cause.fault { s with tracker := t' } := by
  simp only [track, h]

variable [Sink σ]

def moved (m : Move) (out : Answer → String) : Write σ Unit := do
  let a ← track m.run
  append (out a)

theorem moved_ok (out : Answer → String) (h : m.run s.tracker = .ok a t') :
    moved m out s = .ok () { s with tracker := t', sink := Sink.append s.sink (out a) } :=
  bind_ok (track_of_run h)

theorem moved_error {cause : Violation} (out : Answer → String)
    (h : m.run s.tracker = .error cause t') :
    moved m out s = .error cause.fault { s with tracker := t' } :=
  bind_error (track_of_refused h)

theorem moved_eq_place {α : Type} {f : α → Answer}
    {move : Stack → Except Violation (α × Stack)} (out : Answer → String)
    (h : m.run = f <$> make move) :
    (moved m out : Write σ Unit) = place move fun a => out (f a) := by
  unfold moved place
  rw [h, track_map, bind_map_left]

theorem valueText_eq_moved (text : String) :
    (valueText text : Write σ Unit) = moved .value fun a => a.lead ++ text := by
  rw [moved_eq_place _ rfl]
  exact valueText_eq text

theorem start_eq_moved (kind : FrameKind) :
    (start kind : Write σ Unit) = moved (.push kind) fun a => a.lead ++ kind.opener := by
  unfold moved Move.run
  rw [track_map, bind_map_left]
  rfl

theorem key_eq_moved (k : String) :
    (key (.text k) : Write σ Unit) = moved .key fun a => a.lead ++ (Text.quote k ++ ":") := by
  rw [moved_eq_place _ rfl, key_text]
  simp only [String.append_assoc]
  rfl

theorem finish_eq_moved (s : Session σ) :
    finish s = moved .pop (fun a => a.lead ++ (s.tracker.top?.map (·.kind.closer)).getD "") s := by
  rw [moved_eq_place _ rfl, finish_eq]
  cases hstack : s.stack with
  | nil =>
      have hpop : s.stack.pop = .error .nothingToEnd := by rw [hstack]; rfl
      rw [place_error hpop, place_error hpop]
  | cons f outer =>
      have htop : s.tracker.top? = some f := congrArg List.head? hstack
      rw [htop]
      cases hpop : s.stack.pop with
      | error cause => rw [place_error hpop, place_error hpop]
      | ok r =>
          obtain ⟨f', st⟩ := r
          have hsame : f' = f := by
            rw [hstack] at hpop
            exact (Stack.pop_eq_ok hpop).1
          subst hsame
          unfold place
          rw [bind_ok (track_ok hpop), bind_ok (track_ok hpop)]
          rfl

/-- Writes a token that is looked at before the move is made. -/
def single (m : Move) (token : Except Fault String) : Write σ Unit := do
  let token ← check token
  moved m fun a => a.lead ++ token

/-- What a call of one token does where it succeeds: one move, and one text appended. -/
def Appends (s : Session σ) (m : Move) (token : Except Fault String) (s' : Session σ) : Prop :=
  ∃ text a t', token = .ok text ∧ m.run s.tracker = .ok a t' ∧
    s' = { s with tracker := t', sink := Sink.append s.sink (a.lead ++ text) }

/-- A step makes its move and appends its token at once, or leaves no trace but in the log. -/
structure Atomic (w : Write σ Unit) (s : Session σ) (m : Move) (token : Except Fault String) :
    Prop where
  ok_iff : ∀ s', w s = .ok () s' ↔ Appends s m token s'
  error : ∀ fault s', w s = .error fault s' → s.Untouched s'

theorem Atomic.of_error {w : Write σ Unit} {token : Except Fault String} {fault : Fault}
    {s₁ : Session σ} (hw : w s = .error fault s₁) (huntouched : s.Untouched s₁)
    (hnot : ∀ s', ¬Appends s m token s') : Atomic w s m token where
  ok_iff s' := by
    rw [hw]
    exact ⟨nofun, fun happends => absurd happends (hnot s')⟩
  error := by
    intro fault' s' h
    rw [hw] at h
    cases h
    exact huntouched

theorem Atomic.of_ok {w : Write σ Unit} {text : String} (hmove : m.run s.tracker = .ok a t')
    (hw : w s = .ok () { s with tracker := t', sink := Sink.append s.sink (a.lead ++ text) }) :
    Atomic w s m (.ok text) where
  ok_iff s' := by
    rw [hw]
    constructor
    · intro h
      cases h
      exact ⟨text, a, t', rfl, hmove, rfl⟩
    · rintro ⟨_, _, _, ⟨⟩, h, rfl⟩
      rw [hmove] at h
      cases h
      rfl
  error := by
    intro fault s' h
    rw [hw] at h
    cases h

/-- A step that leaves no trace where its token or its move is refused is atomic, if it succeeds
where neither is. -/
theorem atomic_of_cases {w : Write σ Unit} {token : Except Fault String}
    (htoken : ∀ fault, token = .error fault → ∃ fault s', w s = .error fault s' ∧ s.Untouched s')
    (hmove : ∀ cause t', m.run s.tracker = .error cause t' →
      ∃ fault s', w s = .error fault s' ∧ s.Untouched s')
    (hok : ∀ text a t', token = .ok text → m.run s.tracker = .ok a t' →
      w s = .ok () { s with tracker := t', sink := Sink.append s.sink (a.lead ++ text) }) :
    Atomic w s m token := by
  cases hrun : m.run s.tracker with
  | error cause t' =>
      obtain ⟨fault, s₁, hw, huntouched⟩ := hmove cause t' hrun
      refine .of_error hw huntouched ?_
      rintro s' ⟨_, _, _, -, h, -⟩
      rw [hrun] at h
      cases h
  | ok a t' =>
      cases token with
      | error fault =>
          obtain ⟨fault, s₁, hw, huntouched⟩ := htoken fault rfl
          refine .of_error hw huntouched ?_
          rintro s' ⟨_, _, _, h, -⟩
          cases h
      | ok text => exact .of_ok hrun (hok text a t' rfl hrun)

theorem atomic_single (s : Session σ) (m : Move) (token : Except Fault String) :
    Atomic (single m token) s m token := by
  refine atomic_of_cases ?_ ?_ ?_
  · rintro fault rfl
    exact ⟨fault, s, rfl, .refl s⟩
  · intro cause t' hmove
    cases token with
    | error fault => exact ⟨fault, s, rfl, .refl s⟩
    | ok text => exact ⟨_, _, moved_error _ hmove, Session.untouched_of_refused hmove⟩
  · rintro text a t' rfl hmove
    exact moved_ok _ hmove

theorem chunk_eq_track (v : Value) : (chunk v : Write σ Unit) = (do
    let a ← track Move.chunk.run
    let token ← check (Scalar.escape v)
    append (a.lead ++ token)) := by
  unfold Move.run
  rw [track_map, bind_map_left]
  simp only [Answer.lead, String.empty_append]
  rfl

/-- The one call that looks at its place first. A piece of a string moves nothing. -/
theorem atomic_chunk (s : Session σ) (v : Value) :
    Atomic (chunk v) s .chunk (Scalar.escape v) := by
  rw [chunk_eq_track]
  refine atomic_of_cases ?_ ?_ ?_
  · intro fault htoken
    cases hmove : Move.chunk.run s.tracker with
    | error cause t' =>
        exact ⟨_, _, bind_error (track_of_refused hmove), Session.untouched_of_refused hmove⟩
    | ok a t' =>
        rw [bind_ok (track_of_run hmove), htoken]
        obtain ⟨st, hact, rfl⟩ := Move.run_eq_ok hmove
        obtain ⟨⟨_, st'⟩, hchunk, hanswer⟩ := map_eq_ok hact
        cases hanswer
        exact ⟨fault, _, rfl, rfl, rfl, Stack.eq_of_chunk hchunk, rfl⟩
  · intro cause t' hmove
    exact ⟨_, _, bind_error (track_of_refused hmove), Session.untouched_of_refused hmove⟩
  · intro text a t' htoken hmove
    rw [bind_ok (track_of_run hmove), htoken]
    rfl

theorem Atomic.congr {w w' : Write σ Unit} {token : Except Fault String} (h : Atomic w' s m token)
    (hw : w s = w' s) : Atomic w s m token where
  ok_iff := by
    rw [hw]
    exact h.ok_iff
  error := by
    rw [hw]
    exact h.error

theorem atomic_value {w : Write σ Unit} {token : Except Fault String}
    (hw : w s = (check token >>= valueText : Write σ Unit) s) : Atomic w s .value token := by
  refine (atomic_single s .value token).congr (hw.trans ?_)
  cases token with
  | error fault => rfl
  | ok text => exact congrFun (valueText_eq_moved text) s

theorem atomic_key (s : Session σ) (v : Value) :
    Atomic (key v) s .key ((Scalar.quote v).map (· ++ ":")) := by
  refine (atomic_single s .key _).congr ?_
  cases v with
  | text k => exact congrFun (key_eq_moved k) s
  | _ => rfl

theorem atomic_call (s : Session σ) {c : Call} (h : c.move? = some m) :
    Atomic c.run s m (c.token s) := by
  cases c with
  | raw v =>
      cases v with
      | text t =>
          cases h
          exact atomic_value rfl
      | _ => cases h
  | null | bool v | integer v | float v precision | string v =>
      cases h
      exact atomic_value rfl
  | start kind =>
      cases h
      exact (atomic_single s (.push kind) (.ok kind.opener)).congr
        (congrFun (start_eq_moved kind) s)
  | chunk v =>
      cases h
      exact atomic_chunk s v
  | finish =>
      cases h
      exact (atomic_single s .pop (.ok _)).congr (finish_eq_moved s)
  | key v =>
      cases h
      exact atomic_key s v
  | keyIfPresent k v | strings skipNull items | stringPairs v | emit sortKeys v => cases h

theorem value_of_key {k : Value} {s₁ : Session σ} (h : key k s = .ok () s₁) :
    ∃ st, s₁.stack.value = .ok (.none, st) := by
  obtain ⟨text, a, t', -, hmove, rfl⟩ := ((atomic_key s k).ok_iff s₁).1 h
  obtain ⟨st, hact, rfl⟩ := Move.run_eq_ok hmove
  obtain ⟨⟨sep, st'⟩, hkey, hanswer⟩ := map_eq_ok hact
  cases hanswer
  cases hstack : s.tracker.stack with
  | nil =>
      rw [hstack] at hkey
      cases hkey
  | cons f outer =>
      rw [hstack] at hkey
      obtain ⟨-, rfl⟩ := Stack.key_marks hkey
      exact ⟨_, rfl⟩

theorem string_of_not_text {v : Value} (h : v.kind ≠ .text) (s : Session σ) :
    string v s = .error (.type (.notText v.kind)) s := by
  cases v with
  | text t => exact absurd rfl h
  | _ => rfl

theorem keyIfPresent_of_not_null (k : Value) {v : Value} (h : v.kind ≠ .null) :
    (keyIfPresent k v : Write σ Unit) = key k >>= fun _ => string v := by
  cases v with
  | null => exact absurd rfl h
  | _ => rfl

/-- A key with what is no string is a key alone. No other call of a key that may be missing leaves a
trace when it fails. -/
theorem keyIfPresent_error {k v : Value} {fault : Fault} {s' : Session σ}
    (h : keyIfPresent k v s = .error fault s') :
    s.Untouched s' ∨ v.kind ≠ .null ∧ v.kind ≠ .text ∧ key k s = .ok () s' := by
  by_cases hnull : v.kind = .null
  · cases v with
    | null => cases h
    | _ => cases hnull
  · rw [keyIfPresent_of_not_null k hnull] at h
    rcases bind_eq_error h with hkey | ⟨_, s₁, hkey, hstring⟩
    · exact .inl ((atomic_key s k).error _ _ hkey)
    · by_cases htext : v.kind = .text
      · -- The place is free after the key, so a string is written.
        cases v with
        | text t =>
            obtain ⟨st, hvalue⟩ := value_of_key hkey
            obtain ⟨s₂, hplace, -⟩ :=
              place_ok (fun sep : Separator => sep.text ++ Text.quote t) hvalue
            have hok : string (.text t) s₁ = .ok () s₂ := hplace
            rw [hok] at hstring
            cases hstring
        | _ => cases htext
      · rw [string_of_not_text htext] at hstring
        cases hstring
        exact .inr ⟨hnull, htext, hkey⟩

theorem raw_of_not_text {v : Value} (h : v.kind ≠ .text) : (raw v : Write σ Unit) =
    (track Move.value.run >>= fun _ => throw (.type (.rawNotText v.kind))) := by
  unfold Move.run
  rw [track_map, bind_map_left]
  cases v with
  | text t => exact absurd rfl h
  | _ => rfl

/-- A call of one token that fails leaves no trace but in the log, whatever it fails for; one that
succeeds makes one append, of the separator with the whole token. It succeeds just if its token can
be written and its move is made. A raw value that is no text takes its place and writes nothing, and
a key with what is no string is written alone; otherwise these calls leave no trace either. -/
theorem token_calls_atomic (s : Session σ) :
    (∀ (c : Call) (m : Move), c.move? = some m →
      (∀ fault s', c.run s = .error fault s' → s.Untouched s') ∧
      ∀ s', c.run s = .ok () s' ↔ ∃ text a t', c.token s = .ok text ∧
        m.run s.tracker = .ok a t' ∧
        s' = { s with tracker := t', sink := Sink.append s.sink (a.lead ++ text) }) ∧
    (∀ v : Value, v.kind ≠ .text →
      (∀ a t', Move.value.run s.tracker = .ok a t' →
        (Call.raw v).run s = .error (.type (.rawNotText v.kind)) { s with tracker := t' }) ∧
      ∀ cause t', Move.value.run s.tracker = .error cause t' →
        ∃ s', (Call.raw v).run s = .error (.nesting cause) s' ∧ s.Untouched s') ∧
    ∀ k v : Value,
      (v.kind = .null → (Call.keyIfPresent k v).run s = .ok () s) ∧
      (∀ s₁, v.kind ≠ .null → v.kind ≠ .text → (Call.key k).run s = .ok () s₁ →
        (Call.keyIfPresent k v).run s = .error (.type (.notText v.kind)) s₁) ∧
      ∀ fault s', (Call.keyIfPresent k v).run s = .error fault s' →
        s.Untouched s' ∨ v.kind ≠ .null ∧ v.kind ≠ .text ∧ (Call.key k).run s = .ok () s' := by
  refine ⟨?_, ?_, ?_⟩
  · intro c m hmove
    have hatomic := atomic_call s hmove
    exact ⟨hatomic.error, hatomic.ok_iff⟩
  · intro v hv
    have hraw : (Call.raw v).run s =
        (track Move.value.run >>= fun _ => throw (.type (.rawNotText v.kind)) : Write σ Unit) s :=
      congrFun (raw_of_not_text hv) s
    refine ⟨?_, ?_⟩
    · intro a t' hmove
      exact hraw.trans (bind_ok (track_of_run hmove))
    · intro cause t' hmove
      have hfail := hraw.trans (bind_error (track_of_refused hmove))
      rw [(Move.fault_of_refused hmove nofun).1] at hfail
      exact ⟨_, hfail, Session.untouched_of_refused hmove⟩
  · intro k v
    refine ⟨?_, ?_, fun _ _ => keyIfPresent_error⟩
    · intro hnull
      cases v with
      | null => rfl
      | _ => cases hnull
    · intro s₁ hnull htext hkey
      change keyIfPresent k v s = _
      rw [keyIfPresent_of_not_null k hnull]
      exact (bind_ok hkey).trans (string_of_not_text htext s₁)

end Write
end JsonWriter
