import JsonWriter.Proofs.Json.Grammar
import JsonWriter.Proofs.Nesting.Stack
import JsonWriter.Proofs.Results
import JsonWriter.Session.Call

/-! What the steps of a session do: each makes a move on the open containers and writes a text, or
is refused and writes nothing. -/
namespace JsonWriter

theorem Frame.separator_text (f : Frame) :
    f.separator.text.toList = Json.comma f.hasMember := by
  unfold Frame.separator Json.comma
  cases f.hasMember <;> rfl

variable {σ : Type} [Sink σ]

namespace Session

def text (s : Session σ) : List Char := (Sink.text s.sink).toList

/-- A session after it wrote a text; its log, limit and settings are as before. -/
structure Grows (s : Session σ) (stack : Stack) (out : List Char) (s' : Session σ) : Prop where
  settings : s'.settings = s.settings
  tracker : s'.tracker = { s.tracker with stack }
  text : s'.text = s.text ++ out

theorem Grows.trans {s s' s'' : Session σ} {st st' : Stack} {out out' : List Char}
    (h : s.Grows st out s') (h' : s'.Grows st' out' s'') : s.Grows st' (out ++ out') s'' := by
  refine ⟨h'.settings.trans h.settings, ?_, ?_⟩
  · rw [h'.tracker, h.tracker]
  · rw [h'.text, h.text, List.append_assoc]

theorem Grows.stack {s s' : Session σ} {st : Stack} {out : List Char} (h : s.Grows st out s') :
    s'.stack = st := by
  unfold Session.stack
  rw [h.tracker]

theorem Grows.level {s s' : Session σ} {st : Stack} {out : List Char} (h : s.Grows st out s') :
    s'.level = st.length := by
  unfold Session.level Tracker.level Stack.level
  rw [h.tracker]

theorem Grows.limit {s s' : Session σ} {st : Stack} {out : List Char} (h : s.Grows st out s') :
    s'.tracker.limit = s.tracker.limit := by rw [h.tracker]

theorem Grows.log {s s' : Session σ} {st : Stack} {out : List Char} (h : s.Grows st out s') :
    s'.log = s.log := by
  unfold Session.log
  rw [h.tracker]

theorem Grows.refl (s : Session σ) : s.Grows s.stack [] s :=
  ⟨rfl, rfl, (List.append_nil _).symm⟩

def refused (s : Session σ) (cause : Violation) : Session σ :=
  { s with tracker := { s.tracker with log := s.tracker.log ++ cause.lines s.level } }

omit [Sink σ] in
theorem log_refused (s : Session σ) (cause : Violation) :
    (s.refused cause).log = s.log ++ cause.lines s.level := rfl

end Session

namespace Write

def place {α : Type} (move : Stack → Except Violation (α × Stack)) (out : α → String) :
    Write σ Unit := do
  let a ← track (Tracker.make move)
  append (out a)

omit [Sink σ] in
theorem track_ok {α : Type} {move : Stack → Except Violation (α × Stack)} {s : Session σ} {a : α}
    {st : Stack} (h : move s.stack = .ok (a, st)) :
    track (Tracker.make move) s = .ok a { s with tracker := { s.tracker with stack := st } } := by
  change move s.tracker.stack = _ at h
  simp only [track, Tracker.make, h]

omit [Sink σ] in
theorem track_error {α : Type} {move : Stack → Except Violation (α × Stack)} {s : Session σ}
    {cause : Violation} (h : move s.stack = .error cause) :
    track (Tracker.make move) s = .error cause.fault (s.refused cause) := by
  change move s.tracker.stack = _ at h
  simp only [track, Tracker.make, h]
  rfl

theorem place_ok {α : Type} {move : Stack → Except Violation (α × Stack)} {s : Session σ} {a : α}
    {st : Stack} (out : α → String) (h : move s.stack = .ok (a, st)) :
    ∃ s', place move out s = .ok () s' ∧ s.Grows st (out a).toList s' := by
  refine ⟨{ s with tracker := { s.tracker with stack := st }, sink := Sink.append s.sink (out a) },
    ?_, ?_⟩
  · exact bind_ok (track_ok h)
  · refine ⟨rfl, rfl, ?_⟩
    change (Sink.text (Sink.append s.sink (out a))).toList = _
    rw [Sink.text_append, String.toList_append]
    rfl

theorem place_error {α : Type} {move : Stack → Except Violation (α × Stack)} {out : α → String}
    {s : Session σ} {cause : Violation} (h : move s.stack = .error cause) :
    place move out s = .error cause.fault (s.refused cause) := bind_error (track_error h)

theorem valueText_eq (text : String) :
    (valueText text : Write σ Unit) = place Stack.value (fun sep => sep.text ++ text) := rfl

theorem start_eq (kind : FrameKind) (s : Session σ) :
    (start kind : Write σ Unit) s =
      place (Stack.push s.tracker.limit kind) (fun sep => sep.text ++ kind.opener) s := rfl

theorem finish_eq : (finish : Write σ Unit) = place Stack.pop (fun f => f.kind.closer) := rfl

theorem key_text (k : String) :
    (key (.text k) : Write σ Unit) =
      place Stack.key (fun sep => sep.text ++ Text.quote k ++ ":") := rfl

theorem chunk_text (t : String) :
    (chunk (.text t) : Write σ Unit) = place Stack.chunk (fun _ => Text.escape t) := rfl

end Write
end JsonWriter
