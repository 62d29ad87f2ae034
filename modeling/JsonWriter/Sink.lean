/-! Destinations for written text. Text is only ever added at the end; what a destination holds is
the concatenation of what was appended, however it keeps it. -/
namespace JsonWriter

/-- A destination, known by the text it holds. -/
class Sink (σ : Type) where
  append : σ → String → σ
  text : σ → String
  text_append : ∀ s t, text (append s t) = text s ++ t

/-- A buffer in memory. It keeps the appended texts apart until it is read. -/
structure TextBuffer where
  chunks : Array String := #[]

namespace TextBuffer

def append (b : TextBuffer) (text : String) : TextBuffer :=
  if text.isEmpty then b else ⟨b.chunks.push text⟩

def contents (b : TextBuffer) : String := String.join b.chunks.toList

def read (b : TextBuffer) : String × TextBuffer :=
  let text := b.contents
  (text, if 1 < b.chunks.size then ⟨#[text]⟩ else b)

def reset (_ : TextBuffer) : TextBuffer := ⟨#[]⟩

def length (b : TextBuffer) : Nat := b.chunks.foldl (fun n text => n + text.length) 0

/-- The uses of a buffer. There are two ways to read it. -/
inductive Use where
  | append (text : String)
  | contents
  | display
  | length
  | reset

inductive Answer where
  | nothing
  | text (s : String)
  | length (n : Nat)
deriving DecidableEq

/-- What a use answers, and the buffer after it. -/
def use (b : TextBuffer) : Use → Answer × TextBuffer
  | .append text => (.nothing, b.append text)
  | .contents | .display => (.text b.read.1, b.read.2)
  | .length => (.length b.length, b)
  | .reset => (.nothing, b.reset)

def useAll (b : TextBuffer) (uses : List Use) : TextBuffer := uses.foldl (fun b u => (b.use u).2) b

end TextBuffer

/-- A stream of writes, in the order in which they were made. Empty texts are not written. -/
structure Stream where
  writes : Array String := #[]

namespace Stream

def append (s : Stream) (text : String) : Stream :=
  if text.isEmpty then s else ⟨s.writes.push text⟩

def contents (s : Stream) : String := String.join s.writes.toList

end Stream

theorem join_append_singleton (texts : List String) (t : String) :
    String.join (texts ++ [t]) = String.join texts ++ t := by
  simp [String.join, List.foldl_append]

theorem TextBuffer.contents_append (b : TextBuffer) (t : String) :
    (b.append t).contents = b.contents ++ t := by
  unfold append contents
  split
  case isTrue h => simp [String.isEmpty_iff.1 h]
  case isFalse => rw [Array.toList_push, join_append_singleton]

theorem Stream.contents_append (s : Stream) (t : String) :
    (s.append t).contents = s.contents ++ t := by
  unfold append contents
  split
  case isTrue h => simp [String.isEmpty_iff.1 h]
  case isFalse => rw [Array.toList_push, join_append_singleton]

/-- Reading a buffer shows what it holds and leaves it holding that. -/
theorem TextBuffer.contents_read (b : TextBuffer) : b.read.2.contents = b.contents := by
  simp only [read]
  split <;> simp [contents, String.join]

instance : Sink TextBuffer := ⟨TextBuffer.append, TextBuffer.contents, TextBuffer.contents_append⟩

instance : Sink Stream := ⟨Stream.append, Stream.contents, Stream.contents_append⟩

end JsonWriter
