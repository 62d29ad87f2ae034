import JsonWriter.Binary64.Reading
import JsonWriter.Fault

/-! Documents are JSON texts, with infinities and what is no number among their values, and with no
name twice in an object. Integers are kept exact, all other numbers become 64-bit ones. -/
namespace JsonWriter.Document

inductive Refusal where
  | malformed (cause : SyntaxFault)
  | givenTwice (name : String)
  | numeralTooLong (digits : Nat)

abbrev Parsed (α : Type) := α × List Char

def isSpace (c : Char) : Bool := c == ' ' || c == '\t' || c == '\n' || c == '\r'

def skipSpace (s : List Char) : List Char := s.dropWhile isSpace

/-! Strings, read character by character. -/

def hexValue? (c : Char) : Option Nat :=
  if c.isDigit then some (c.toNat - 48)
  else if 'a' ≤ c ∧ c ≤ 'f' then some (c.toNat - 87)
  else if 'A' ≤ c ∧ c ≤ 'F' then some (c.toNat - 55)
  else none

def quad? (a b c d : Char) : Option Nat := do
  return (((← hexValue? a) * 16 + (← hexValue? b)) * 16 + (← hexValue? c)) * 16 + (← hexValue? d)

def isHighSurrogate (n : Nat) : Bool := 0xd800 ≤ n && n < 0xdc00

def isLowSurrogate (n : Nat) : Bool := 0xdc00 ≤ n && n < 0xe000

/-- The character of a code; surrogates alone have none, and are replaced. -/
def charOf (n : Nat) : Char :=
  if isHighSurrogate n || isLowSurrogate n then '\ufffd' else Char.ofNat n

/-- The character of two surrogates, each of which gives ten bits of it. -/
def joined (high low : Nat) : Char :=
  Char.ofNat (0x10000 + (high - 0xd800) * 0x400 + (low - 0xdc00))

def unescaped? : Char → Option Char
  | '"' => some '"'
  | '\\' => some '\\'
  | '/' => some '/'
  | 'b' => some '\x08'
  | 'f' => some '\x0c'
  | 'n' => some '\n'
  | 'r' => some '\r'
  | 't' => some '\t'
  | _ => none

/-- What follows the four digits of a high surrogate: a second code escape that is a low one. Like
the first it is only taken where something follows it. -/
def lowSurrogate? : List Char → Except Refusal (Option (Parsed Nat))
  | '\\' :: 'u' :: a :: b :: c :: d :: next :: rest =>
    match quad? a b c d with
    | none => .error (.malformed .unicodeEscape)
    | some n => .ok (if isLowSurrogate n then some (n, next :: rest) else none)
  | _ => .ok none

/-- Reads the character of a code escape, after its letter. Something must follow its digits. -/
def readCode : List Char → Except Refusal (Parsed Char)
  | a :: b :: c :: d :: next :: rest => do
    match quad? a b c d with
    | none => throw (.malformed .unicodeEscape)
    | some n =>
      if isHighSurrogate n then
        match ← lowSurrogate? (next :: rest) with
        | some (low, rest) => return (joined n low, rest)
        | none => return (charOf n, next :: rest)
      else return (charOf n, next :: rest)
  | _ => .error (.malformed .unicodeEscape)

/-- Reads the next character of a string, or its closing quote. -/
def readChar : List Char → Except Refusal (Parsed (Option Char))
  | [] => .error (.malformed .openString)
  | '"' :: rest => .ok (none, rest)
  | ['\\'] => .error (.malformed .openString)
  | '\\' :: 'u' :: rest => (readCode rest).map fun (c, rest) => (some c, rest)
  | '\\' :: c :: rest =>
    match unescaped? c with
    | some c => .ok (some c, rest)
    | none => .error (.malformed .escape)
  | c :: rest => if c.toNat < 0x20 then .error (.malformed .controlInString) else .ok (some c, rest)

/-- Reads characters up to a closing quote. The first argument bounds their number. -/
def readChars : Nat → List Char → Except Refusal (Parsed (List Char))
  | 0, _ => .error (.malformed .openString)
  | bound + 1, s => do
    match ← readChar s with
    | (none, rest) => return ([], rest)
    | (some c, rest) =>
      let (text, rest) ← readChars bound rest
      return (c :: text, rest)

def readString (s : List Char) : Except Refusal (Parsed (List Char)) := readChars (s.length + 1) s

/-! Numbers. -/

/-- Splits off the whole digits of a number: one zero, or digits that begin with another. -/
def wholeDigits? : List Char → Option (List Char × List Char)
  | '0' :: rest => some (['0'], rest)
  | c :: rest =>
    if c.isDigit then some (c :: rest.takeWhile Char.isDigit, rest.dropWhile Char.isDigit) else none
  | [] => none

/-- Splits off a point and digits; a point that no digit follows stays. -/
def fractionDigits : List Char → List Char × List Char
  | '.' :: c :: rest =>
    if c.isDigit then (c :: rest.takeWhile Char.isDigit, rest.dropWhile Char.isDigit)
    else ([], '.' :: c :: rest)
  | s => ([], s)

theorem append_of_wholeDigits? {s digits rest : List Char}
    (h : wholeDigits? s = some (digits, rest)) : digits ++ rest = s := by
  unfold wholeDigits? at h
  split at h
  · cases h
    rfl
  · split at h
    · cases h
      simp only [List.cons_append, List.takeWhile_append_dropWhile]
    · cases h
  · cases h

/-- Splits off an exponent; one without digits stays. -/
def exponent? : List Char → Option (Int × List Char)
  | [] => none
  | c :: rest =>
    if c == 'e' || c == 'E' then
      let (negative, rest) := match rest with
        | '-' :: rest => (true, rest)
        | '+' :: rest => (false, rest)
        | _ => (false, rest)
      let digits := rest.takeWhile Char.isDigit
      if digits.isEmpty then none
      else
        let n : Int := Numeral.value digits
        some (if negative then -n else n, rest.dropWhile Char.isDigit)
    else none

/-- Reads a number after its sign. One with neither fraction nor exponent is an integer, and has a
greatest length. -/
def readNumber (negative : Bool) (s : List Char) : Except Refusal (Parsed Value) :=
  match wholeDigits? s with
  | none => .error (.malformed .value)
  | some (whole, rest) =>
    let (fraction, rest) := fractionDigits rest
    match fraction, exponent? rest with
    | [], none =>
      if Numeral.maxDigits < whole.length then .error (.numeralTooLong whole.length)
      else
        let n : Int := Numeral.value whole
        .ok (.int (if negative then -n else n), rest)
    | _, none => .ok (float whole fraction 0, rest)
    | _, some (e, rest) => .ok (float whole fraction e, rest)
where
  float (whole fraction : List Char) (e : Int) : Value :=
    .float (Binary64.ofDecimal negative (Decimal.ofDigits whole fraction e))

/-! Values, and whole documents. -/

def readScalar : List Char → Except Refusal (Parsed Value)
  | 'n' :: 'u' :: 'l' :: 'l' :: rest => .ok (.null, rest)
  | 't' :: 'r' :: 'u' :: 'e' :: rest => .ok (.bool true, rest)
  | 'f' :: 'a' :: 'l' :: 's' :: 'e' :: rest => .ok (.bool false, rest)
  | 'N' :: 'a' :: 'N' :: rest => .ok (.float (Binary64.notANumber false), rest)
  | 'I' :: 'n' :: 'f' :: 'i' :: 'n' :: 'i' :: 't' :: 'y' :: rest => .ok (infinite false, rest)
  | '-' :: 'I' :: 'n' :: 'f' :: 'i' :: 'n' :: 'i' :: 't' :: 'y' :: rest => .ok (infinite true, rest)
  | '-' :: rest => readNumber true rest
  | s => readNumber false s
where
  infinite (negative : Bool) : Value := .float (Binary64.ofMagnitude negative Binary64.infinity)

def repeated? : List String → List String → Option String
  | _, [] => none
  | seen, name :: rest => if seen.contains name then some name else repeated? (name :: seen) rest

/-- An object as it closes; only here a repeated name is noticed. -/
def closeObject (members : List (String × Value)) : Except Refusal Value :=
  match repeated? [] (members.map (·.1)) with
  | some name => .error (.givenTwice name)
  | none => .ok (.mapping (members.map fun (name, v) => (.text name, v)))

mutual

/-- Reads a value at the start of a text. The first argument bounds the steps; each step either
reads a character or is followed by one that does. -/
def readValue : Nat → List Char → Except Refusal (Parsed Value)
  | 0, _ => .error (.malformed .value)
  | steps + 1, s =>
    match s with
    | '"' :: rest => do
      let (text, rest) ← readString rest
      return (.text (String.ofList text), rest)
    | '{' :: rest =>
      match skipSpace rest with
      | '}' :: rest => .ok (.mapping [], rest)
      | s => do
        let (members, rest) ← readMembers steps s
        return (← closeObject members, rest)
    | '[' :: rest =>
      match skipSpace rest with
      | ']' :: rest => .ok (.list [], rest)
      | s => do
        let (items, rest) ← readItems steps s
        return (.list items, rest)
    | s => readScalar s

def readItems : Nat → List Char → Except Refusal (Parsed (List Value))
  | 0, _ => .error (.malformed .value)
  | steps + 1, s => do
    let (item, rest) ← readValue steps s
    match skipSpace rest with
    | ']' :: rest => return ([item], rest)
    | ',' :: rest => do
      let (items, rest) ← readItems steps (skipSpace rest)
      return (item :: items, rest)
    | _ => throw (.malformed .comma)

def readMembers : Nat → List Char → Except Refusal (Parsed (List (String × Value)))
  | 0, _ => .error (.malformed .value)
  | steps + 1, s =>
    match s with
    | '"' :: rest => do
      let (name, rest) ← readString rest
      match skipSpace rest with
      | ':' :: rest => do
        let (item, rest) ← readValue steps (skipSpace rest)
        let member := (String.ofList name, item)
        match skipSpace rest with
        | '}' :: rest => return ([member], rest)
        | ',' :: rest => do
          let (members, rest) ← readMembers steps (skipSpace rest)
          return (member :: members, rest)
        | _ => throw (.malformed .comma)
      | _ => throw (.malformed .colon)
    | _ => .error (.malformed .memberName)

end

/-- Reads a text that is one value, space around it allowed. -/
def read (s : List Char) : Except Refusal Value :=
  match s with
  | '\ufeff' :: _ => .error (.malformed .byteOrderMark)
  | s => do
    let (v, rest) ← readValue (2 * s.length + 1) (skipSpace s)
    match skipSpace rest with
    | [] => return v
    | _ => throw (.malformed .trailingText)

end JsonWriter.Document
