import JsonWriter.Proofs.Json.Grammar

/-! A reader of JSON texts. `Json.read?` takes a whole text, with space around the value or
without. -/
namespace JsonWriter.Json

open Document (skipSpace)

/-- Reads a number without a sign as far as it goes. -/
def readMagnitude? (s : List Char) : Option (ℚ × List Char) :=
  (Document.wholeDigits? s).map fun (whole, rest) =>
    let (digits, rest) := Document.fractionDigits rest
    let (e, rest) := (Document.exponent? rest).getD (0, rest)
    ((Decimal.ofDigits whole digits e).toRat, rest)

def readNumber? (s : List Char) : Option (ℚ × List Char) :=
  match s with
  | '-' :: rest => (readMagnitude? rest).map fun (q, rest) => (-q, rest)
  | s => readMagnitude? s

def readEscape? : List Char → Option (Char × List Char)
  | 'u' :: a :: b :: c :: d :: rest =>
    (Document.quad? a b c d).map fun n =>
      if Document.isHighSurrogate n then
        match lowEscape? rest with
        | some (low, rest) => (Document.joined n low, rest)
        | none => (Document.charOf n, rest)
      else (Document.charOf n, rest)
  | letter :: rest => (Document.unescaped? letter).map (·, rest)
  | [] => none

def readChar? : List Char → Option (Option Char × List Char)
  | [] => none
  | c :: rest =>
    if c = '"' then some (none, rest)
    else if c = '\\' then (readEscape? rest).map fun (c, rest) => (some c, rest)
    else if c.toNat < 0x20 then none
    else some (some c, rest)

/-- Reads characters up to a closing quote. The first argument bounds their number. -/
def readChars? : Nat → List Char → Option (List Char × List Char)
  | 0, _ => none
  | bound + 1, s =>
    match readChar? s with
    | none => none
    | some (none, rest) => some ([], rest)
    | some (some c, rest) => (readChars? bound rest).map fun (text, rest) => (c :: text, rest)

def readString? (s : List Char) : Option (List Char × List Char) := readChars? (s.length + 1) s

def readScalar? : List Char → Option (Json × List Char)
  | 'n' :: 'u' :: 'l' :: 'l' :: rest => some (.null, rest)
  | 't' :: 'r' :: 'u' :: 'e' :: rest => some (.bool true, rest)
  | 'f' :: 'a' :: 'l' :: 's' :: 'e' :: rest => some (.bool false, rest)
  | s => (readNumber? s).map fun (q, rest) => (.number q, rest)

mutual

/-- Reads a value at the start of a text. The first argument bounds the steps. -/
def readValue? : Nat → List Char → Option (Json × List Char)
  | 0, _ => none
  | steps + 1, s =>
    match s with
    | '"' :: rest => (readString? rest).map fun (text, rest) => (.string (String.ofList text), rest)
    | '[' :: rest =>
      match skipSpace rest with
      | ']' :: rest => some (.array [], rest)
      | s => (readItems? steps s).map fun (items, rest) => (.array items, rest)
    | '\x7b' :: rest =>
      match skipSpace rest with
      | '\x7d' :: rest => some (.object [], rest)
      | s => (readMembers? steps s).map fun (members, rest) => (.object members, rest)
    | s => readScalar? s

def readItems? : Nat → List Char → Option (List Json × List Char)
  | 0, _ => none
  | steps + 1, s => do
    let (item, rest) ← readValue? steps s
    match skipSpace rest with
    | ']' :: rest => some ([item], rest)
    | ',' :: rest => do
      let (items, rest) ← readItems? steps (skipSpace rest)
      some (item :: items, rest)
    | _ => none

def readMember? : Nat → List Char → Option ((String × Json) × List Char)
  | 0, _ => none
  | steps + 1, s =>
    match s with
    | '"' :: rest => do
      let (name, rest) ← readString? rest
      match skipSpace rest with
      | ':' :: rest => do
        let (v, rest) ← readValue? steps (skipSpace rest)
        some ((String.ofList name, v), rest)
      | _ => none
    | _ => none

def readMembers? : Nat → List Char → Option (List (String × Json) × List Char)
  | 0, _ => none
  | steps + 1, s => do
    let (member, rest) ← readMember? steps s
    match skipSpace rest with
    | '\x7d' :: rest => some ([member], rest)
    | ',' :: rest => do
      let (members, rest) ← readMembers? steps (skipSpace rest)
      some (member :: members, rest)
    | _ => none

end

/-- Reads a text that is one value. -/
def read? (s : List Char) : Option Json :=
  match readValue? (2 * s.length + 1) (skipSpace s) with
  | some (v, rest) => if skipSpace rest = [] then some v else none
  | none => none

end JsonWriter.Json
