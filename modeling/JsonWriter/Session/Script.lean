import JsonWriter.Render

/-! Scripts of calls, in which containers may be opened around blocks of steps. -/
namespace JsonWriter

inductive Call where
  | raw (v : Value)
  | null
  | bool (v : Value)
  | integer (v : Value)
  | float (v precision : Value)
  | string (v : Value)
  | start (kind : FrameKind)
  | chunk (v : Value)
  | finish
  | key (v : Value)
  | keyIfPresent (k v : Value)
  | strings (skipNull items : Value)
  | stringPairs (v : Value)
  | emit (sortKeys : Bool) (v : Value)

inductive BlockKind where
  | array | object
deriving DecidableEq, Repr

def BlockKind.frameKind : BlockKind → FrameKind
  | array => .array
  | object => .object

/-- A step of a script: a call, text put into the destination behind the session's back, a failure
of the caller's own, or a block. -/
inductive Step where
  | call (c : Call)
  | append (text : String)
  | raise (text : String)
  | block (kind : BlockKind) (body : List Step)

variable {σ : Type} [Sink σ]

def Call.run : Call → Write σ Unit
  | raw v => Write.raw v
  | null => Write.null
  | bool v => Write.bool v
  | integer v => Write.integer v
  | float v precision => Write.float v precision
  | string v => Write.string v
  | start kind => Write.start kind
  | chunk v => Write.chunk v
  | finish => Write.finish
  | key v => Write.key v
  | keyIfPresent k v => Write.keyIfPresent k v
  | strings skipNull items => Write.strings skipNull items
  | stringPairs v => Write.stringPairs v
  | emit sortKeys v => Write.emit sortKeys v

mutual

/-- A block opens its container, runs its body and closes what is then innermost. A failure in the
body ends the block at once and closes nothing. -/
def Step.run : Step → Write σ Unit
  | .call c => c.run
  | .append text => Write.append text
  | .raise text => throw (.raised text)
  | .block kind body => do
    Write.start kind.frameKind
    Step.runAll body
    Write.finish

/-- Runs steps up to the first failure. -/
def Step.runAll : List Step → Write σ Unit
  | [] => pure ()
  | step :: rest => do
    step.run
    Step.runAll rest

end

/-- The session after a step, and the fault if the step failed. -/
def outcome (result : EStateM.Result Fault (Session σ) Unit) : Session σ × Option Fault :=
  match result with
  | .ok _ s => (s, none)
  | .error fault s => (s, some fault)

/-- Runs steps one by one, and goes on after those that fail. -/
def Session.runAll (s : Session σ) (script : List Step) : Session σ :=
  script.foldl (fun s step => (outcome (step.run s)).1) s

end JsonWriter
