import JsonWriter.Numeral

/-! The open containers of a document, with the marks that decide what may come next in them, and
which moves they allow. A move that is not allowed changes nothing: it has no next stack. -/
namespace JsonWriter

/-- What can be open: an array, an object, or a string whose text comes in pieces. -/
inductive FrameKind where
  | array | object | string
deriving DecidableEq, Repr

namespace FrameKind

def name : FrameKind → String
  | array => "array"
  | object => "object"
  | string => "string"

def ofName? : String → Option FrameKind
  | "array" => some array
  | "object" => some object
  | "string" => some string
  | _ => none

def openState : FrameKind → String
  | array => "ARRAY-OPEN"
  | object => "OBJECT-OPEN"
  | string => "STRING-OPEN"

def opener : FrameKind → String
  | array => "["
  | object => "\x7b"
  | string => "\""

def closer : FrameKind → String
  | array => "]"
  | object => "\x7d"
  | string => "\""

end FrameKind

/-- One open container: whether something was written in it already, and whether a key was written
whose value is still to come. -/
structure Frame where
  kind : FrameKind
  hasMember : Bool := false
  awaitingValue : Bool := false
deriving DecidableEq, Repr

/-- The state of a container, as it is reported. Only an object waits for a value. -/
def Frame.state (f : Frame) : String :=
  if f.kind = .object ∧ f.awaitingValue then "OBJECT-KEY-WRITTEN" else f.kind.openState

/-- What stands between a member and the one before it. -/
inductive Separator where
  | none | comma
deriving DecidableEq, Repr

def Separator.text : Separator → String
  | none => ""
  | comma => ","

def Frame.separator (f : Frame) : Separator := if f.hasMember then .comma else .none

/-- Why a move is not allowed. -/
inductive Violation where
  | valueInString
  | valueWithoutKey
  | keyOutsideObject
  | keyAfterKey
  | chunkOutsideString
  | tooDeep (limit : Int)
  | nothingToEnd
  | keyWithoutValue
deriving DecidableEq, Repr

/-- What a violation says. A limit is told by its numeral, and some are too long for one. -/
def Violation.message? : Violation → Option String
  | valueInString => some "cannot add a value inside a string"
  | valueWithoutKey => some "object member value without a key"
  | keyOutsideObject => some "key outside of an object"
  | keyAfterKey => some "key written while the previous key has no value"
  | chunkOutsideString => some "string chunk outside of a string"
  | tooDeep limit =>
    (Numeral.ofInt? limit).map fun numeral => "nesting deeper than " ++ numeral ++ " levels"
  | nothingToEnd => some "end without an open container"
  | keyWithoutValue => some "object closed while a key has no value"

/-- The open containers, the innermost first. -/
abbrev Stack := List Frame

namespace Stack

def level (s : Stack) : Nat := s.length

/-- A value, or a container as a value. At the top level every value is allowed. -/
def value : Stack → Except Violation (Separator × Stack)
  | [] => .ok (.none, [])
  | frame :: outer => match frame.kind with
    | .string => .error .valueInString
    | .object =>
      if frame.awaitingValue then
        .ok (.none, { frame with awaitingValue := false, hasMember := true } :: outer)
      else .error .valueWithoutKey
    | .array => .ok (frame.separator, { frame with hasMember := true } :: outer)

def key : Stack → Except Violation (Separator × Stack)
  | [] => .error .keyOutsideObject
  | frame :: outer =>
    if frame.kind ≠ .object then .error .keyOutsideObject
    else if frame.awaitingValue then .error .keyAfterKey
    else .ok (frame.separator, { frame with awaitingValue := true } :: outer)

def chunk : Stack → Except Violation (Unit × Stack)
  | [] => .error .chunkOutsideString
  | frame :: outer =>
    if frame.kind = .string then .ok ((), frame :: outer) else .error .chunkOutsideString

/-- Opens a container; the limit is looked at before anything else. -/
def push (limit : Option Int) (kind : FrameKind) (s : Stack) :
    Except Violation (Separator × Stack) :=
  match limit with
  | some n => if n ≤ s.level then .error (.tooDeep n) else opened
  | none => opened
where
  opened := s.value.map fun (separator, s) => (separator, { kind } :: s)

/-- A closed container counts as a member of the one around it. -/
def markMember : Stack → Stack
  | [] => []
  | frame :: outer => { frame with hasMember := true } :: outer

/-- Closes the innermost container and gives it back. -/
def pop : Stack → Except Violation (Frame × Stack)
  | [] => .error .nothingToEnd
  | frame :: outer =>
    if frame.kind = .object ∧ frame.awaitingValue then .error .keyWithoutValue
    else .ok (frame, markMember outer)

end Stack
end JsonWriter
