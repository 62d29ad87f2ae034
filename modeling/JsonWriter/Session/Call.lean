import JsonWriter.Nesting.Tracker
import JsonWriter.PairList.Checked
import JsonWriter.Scalar
import JsonWriter.Sink

/-! Writing sessions: the settings, the tracker and the destination of a document that is being
written, and the calls by which it is written. -/
namespace JsonWriter

structure Session (σ : Type) where
  settings : Settings
  tracker : Tracker
  sink : σ

/-- A step of a session. What it did before it failed is kept. -/
abbrev Write (σ : Type) := EStateM Fault (Session σ)

variable {σ : Type}

namespace Session

/-- A session that has written nothing yet. The destination may hold text already. -/
def start (settings : Settings) (sink : σ) : Session σ where
  settings
  tracker := { limit := settings.maxNesting.map Int.ofNat }
  sink

def level (s : Session σ) : Nat := s.tracker.level

def stack (s : Session σ) : Stack := s.tracker.stack

def log (s : Session σ) : List LogLine := s.tracker.log

end Session

namespace Write

def track {α : Type} (step : EStateM Violation Tracker α) : Write σ α :=
  fun s => match step s.tracker with
    | .ok a tracker => .ok a { s with tracker }
    | .error cause tracker => .error cause.fault { s with tracker }

def append [Sink σ] (text : String) : Write σ Unit :=
  modify fun s => { s with sink := Sink.append s.sink text }

def check {α : Type} (x : Except Fault α) : Write σ α :=
  match x with
  | .ok a => pure a
  | .error fault => throw fault

def valueText [Sink σ] (text : String) : Write σ Unit := do
  let separator ← track (Tracker.make Stack.value)
  append (separator.text ++ text)

/-- Opens a container. -/
def start [Sink σ] (kind : FrameKind) : Write σ Unit := do
  let separator ← track (Tracker.push kind)
  append (separator.text ++ kind.opener)

/-! The calls. -/

variable [Sink σ]

/-- Writes a text that is a JSON value already. The place is taken before the text is looked at. -/
def raw (v : Value) : Write σ Unit := do
  let separator ← track (Tracker.make Stack.value)
  match v with
  | .text s => append (separator.text ++ s)
  | v => throw (.ofKind .rawNotText v)

def null : Write σ Unit := valueText "null"

def bool (v : Value) : Write σ Unit := valueText (Scalar.bool v)

def integer (v : Value) : Write σ Unit := do valueText (← check (Scalar.integer v))

/-- Writes a number at a precision; without one, at that of the settings. -/
def float (v precision : Value) : Write σ Unit := do
  let fallback := Value.int (← get).settings.floatPrecision
  valueText (← check (Scalar.float v (precision.orElse fallback)))

def string (v : Value) : Write σ Unit := do valueText (← check (Scalar.quote v))

/-- Adds a piece to the open string. The place is looked at before the piece. -/
def chunk (v : Value) : Write σ Unit := do
  track (Tracker.make Stack.chunk)
  append (← check (Scalar.escape v))

def finish : Write σ Unit := do
  let frame ← track (Tracker.make Stack.pop)
  append frame.kind.closer

/-- Writes a key. The key is looked at before the place. -/
def key (v : Value) : Write σ Unit := do
  let quoted ← check (Scalar.quote v)
  let separator ← track (Tracker.make Stack.key)
  append (separator.text ++ quoted ++ ":")

/-- Writes a key with a string, or nothing at all where there is none. -/
def keyIfPresent (k v : Value) : Write σ Unit :=
  match v with
  | .null => pure ()
  | v => do
    key k
    string v

def optionalText : Value → Except Fault (Option String)
  | .null => .ok none
  | .text s => .ok (some s)
  | v => .error (.ofKind .arrayItem v)

def optionalString (skipNull : Bool) : Option String → Write σ Unit
  | some s => string (.text s)
  | none => if skipNull then pure () else null

/-- Writes an array of strings. A missing item is null, or left out. All items are looked at before
the array is opened. -/
def strings (skipNull items : Value) : Write σ Unit := do
  let texts ← check (do (← items.collection).mapM optionalText)
  start .array
  texts.forM (optionalString skipNull.isTrue)
  finish

def textPair (v : Value × Value) : Except Fault (String × String) :=
  match v with
  | (.text key, .text value) => .ok (key, value)
  | (key, value) => .error (.type (.pairTexts key.kind value.kind))

/-- The pairs of a collection of pairs. A mapping is a collection of its entries here. -/
def pairsOf : Value → Except Fault (List (String × String))
  | .mapping entries => entries.mapM textPair
  | v => do (← v.collection).mapM fun item => do textPair (← item.pair)

def stringMember (k v : String) : Write σ Unit := do
  key (.text k)
  string (.text v)

/-- Writes an object of strings. All pairs are looked at before the object is opened. -/
def stringPairs (v : Value) : Write σ Unit := do
  let members ← check (pairsOf v)
  start .object
  members.forM fun (key, value) => stringMember key value
  finish

end Write
end JsonWriter
