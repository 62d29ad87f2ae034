import JsonWriter.Fault

/-! The tracker of a writer: the open containers, the limit on them, and what is noted down of moves
that were refused. -/
namespace JsonWriter

structure Tracker where
  limit : Option Int := none
  stack : Stack := []
  log : List LogLine := []

namespace Tracker

def level (t : Tracker) : Nat := t.stack.level

def top? (t : Tracker) : Option Frame := t.stack.head?

/-- Makes a move on the stack. A refused move leaves the stack as it was and is noted down with the
level at which it was tried. -/
def make {α : Type} (move : Stack → Except Violation (α × Stack)) : EStateM Violation Tracker α :=
  fun t => match move t.stack with
    | .ok (a, stack) => .ok a { t with stack }
    | .error cause => .error cause { t with log := t.log ++ cause.lines t.level }

def push (kind : FrameKind) : EStateM Violation Tracker Separator :=
  fun t => make (Stack.push t.limit kind) t

inductive Move where
  | value
  | key
  | chunk
  | push (kind : FrameKind)
  | pop
deriving DecidableEq, Repr

/-- What a move answers: a separator to write, nothing, or the container that was closed. -/
inductive Answer where
  | separator (s : Separator)
  | nothing
  | frame (f : Frame)
deriving DecidableEq, Repr

def Move.run : Move → EStateM Violation Tracker Answer
  | value => .separator <$> make Stack.value
  | key => .separator <$> make Stack.key
  | chunk => (fun _ => .nothing) <$> make Stack.chunk
  | push kind => .separator <$> Tracker.push kind
  | pop => .frame <$> make Stack.pop

end Tracker
end JsonWriter
