/-! Escaped texts, the bodies of JSON string literals, and the order of texts by their code points. A
text none of whose characters needs an escape is its own body; `toList_escape` says that the two ways
to write a body agree. -/
namespace JsonWriter.Text

/-- The letter after the backslash in the two-character form of a character. The slash has one,
so that a closing HTML tag never appears in a body. -/
def shortForm? : Char → Option Char
  | '"' => some '"'
  | '\\' => some '\\'
  | '/' => some '/'
  | '\x08' => some 'b'
  | '\x0c' => some 'f'
  | '\n' => some 'n'
  | '\r' => some 'r'
  | '\t' => some 't'
  | _ => none

def isControl (c : Char) : Bool := c.toNat < 0x20 || c.toNat == 0x7f

def needsEscape (c : Char) : Bool := isControl c || (shortForm? c).isSome

/-- One character of a body: a short form, or for a control without one its code in lowercase
hexadecimal, or the character itself. -/
def escapeChar (c : Char) : List Char :=
  match shortForm? c with
  | some letter => ['\\', letter]
  | none =>
    if isControl c then
      ['\\', 'u', '0', '0', Nat.digitChar (c.toNat / 16), Nat.digitChar (c.toNat % 16)]
    else [c]

/-- The body of the JSON string literal for a text, without its quotes. -/
def escape (s : String) : String :=
  if s.toList.any needsEscape then String.ofList (s.toList.flatMap escapeChar) else s

/-- The JSON string literal for a text. -/
def quote (s : String) : String := "\"" ++ escape s ++ "\""

theorem escapeChar_of_not_needsEscape {c : Char} (h : needsEscape c = false) :
    escapeChar c = [c] := by
  simp only [needsEscape, Bool.or_eq_false_iff, Option.isSome_eq_false_iff,
    Option.isNone_iff_eq_none] at h
  simp [escapeChar, h.1, h.2]

theorem flatMap_escapeChar_of_any_eq_false {l : List Char} (h : l.any needsEscape = false) :
    l.flatMap escapeChar = l := by
  induction l with
  | nil => rfl
  | cons c l ih =>
    simp only [List.any_cons, Bool.or_eq_false_iff] at h
    simp [escapeChar_of_not_needsEscape h.1, ih h.2]

@[simp] theorem toList_escape (s : String) :
    (escape s).toList = s.toList.flatMap escapeChar := by
  unfold escape
  split
  · exact String.toList_ofList
  · rename_i h
    exact (flatMap_escapeChar_of_any_eq_false (by simpa using h)).symm

/-- Compares character by character; a text comes before its continuations. -/
def charsAtMost : List Char → List Char → Bool
  | [], _ => true
  | _ :: _, [] => false
  | a :: s, b :: t => a.toNat < b.toNat || (a.toNat == b.toNat && charsAtMost s t)

def atMost (s t : String) : Bool := charsAtMost s.toList t.toList

def sorted (texts : List String) : List String := texts.mergeSort atMost

end JsonWriter.Text
