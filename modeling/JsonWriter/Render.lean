import JsonWriter.Session.Call
import JsonWriter.Settings.Load

/-! Whole values: written where a session stands, as a text, and as a file. -/
namespace JsonWriter

namespace Write

variable {σ : Type} [Sink σ]

def nonTextKey? (entries : List (Value × Value)) : Option Kind :=
  entries.findSome? fun
    | (.text _, _) => none
    | (key, _) => some key.kind

def memberAtMost {α : Type} (m n : String × α) : Bool := Text.atMost m.1 n.1

/-- Members in their order, or in the order of their keys. -/
def arrange {α : Type} (sortKeys : Bool) (members : List (String × α)) : List (String × α) :=
  if sortKeys then members.mergeSort memberAtMost else members

def member (m : String × Write σ Unit) : Write σ Unit := do
  key (.text m.1)
  m.2

mutual

/-- Writes a value, and what it holds, as one JSON value. The keys of a mapping are looked at before
it is opened. -/
def emit (sortKeys : Bool) : Value → Write σ Unit
  | .null => null
  | .bool b => bool (.bool b)
  | .int n => integer (.int n)
  | .float x => float (.float x) .null
  | .text s => string (.text s)
  | .pairs p => stringPairs (.pairs p)
  | .mapping entries =>
    match nonTextKey? entries with
    | some kind => throw (.type (.objectKey kind))
    | none => do
      start .object
      (arrange sortKeys (emitMembers sortKeys entries)).forM member
      finish
  | .list items | .tuple items => do
    start .array
    emitItems sortKeys items
    finish
  | v => throw (.ofKind .noJsonForm v)

def emitItems (sortKeys : Bool) : List Value → Write σ Unit
  | [] => pure ()
  | v :: rest => do
    emit sortKeys v
    emitItems sortKeys rest

def emitMembers (sortKeys : Bool) : List (Value × Value) → List (String × Write σ Unit)
  | [] => []
  | (.text key, v) :: rest => (key, emit sortKeys v) :: emitMembers sortKeys rest
  | _ :: rest => emitMembers sortKeys rest

end

end Write

namespace Request

/-- Runs the steps of a new session on a buffer of its own. What they note down is kept, also when
they fail. -/
def session (settings : Settings) (steps : Write TextBuffer Unit) :
    Request (Session TextBuffer) := do
  match steps (Session.start settings {}) with
  | .ok _ s =>
    modify fun w => { w with log := w.log ++ s.log }
    return s
  | .error fault s =>
    modify fun w => { w with log := w.log ++ s.log }
    throw fault

/-- The text of a value. Where no settings are named numbers read back unchanged. -/
def render (v source : Value) (sortKeys : Bool) : Request String := do
  let settings ← Settings.resolve source Settings.roundTrip
  let s ← session settings (Write.emit sortKeys v)
  if s.level ≠ 0 then throw (.leftOpen s.level)
  return s.sink.contents

/-- Writes the text of a value to a file. The file is not touched before the whole text is there. -/
def writeDocument (path : Path) (v source : Value) (sortKeys : Bool) : Request Unit := do
  let text ← render v source sortKeys
  writeFile path text.toUTF8.data.toList

end Request

end JsonWriter
