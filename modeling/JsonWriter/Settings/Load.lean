import JsonWriter.Document.Reader
import JsonWriter.Files.Store
import JsonWriter.Scalar
import JsonWriter.Sha256

/-! Settings made from values, which are refused unless they are in bounds, settings read from a file,
and settings named by what a caller hands over. -/
namespace JsonWriter.Settings

def checkPrecision : Value → Except Fault { p : Nat // p ≤ 17 }
  | .int p =>
    if h : 0 ≤ p ∧ p ≤ 17 then .ok ⟨p.toNat, by omega⟩
    else do throw (.settings (.precisionRange (← Scalar.integerText p)))
  | v => do throw (.settings (.precisionType (← v.shown)))

theorem pos_of_none_eq (m : Nat) (e : none = some m) : 0 < m := nomatch e

theorem toNat_pos_of_pos {n : Int} (h : 0 < n) (m : Nat) (e : some n.toNat = some m) : 0 < m := by
  cases e
  omega

def checkNesting (v : Value) : Except Fault { n : Option Nat // ∀ m, n = some m → 0 < m } :=
  match v with
  | .null => .ok ⟨none, pos_of_none_eq⟩
  | .int n =>
    if h : 0 < n then .ok ⟨some n.toNat, toNat_pos_of_pos h⟩ else refuse v
  | v => refuse v
where
  refuse (v : Value) := do throw (.settings (.nesting (← v.shown)))

/-- The precision is looked at first. -/
def ofValues (precision nesting : Value) : Except Fault Settings := do
  let precision ← checkPrecision precision
  let nesting ← checkNesting nesting
  return ⟨precision, nesting, precision.property, nesting.property⟩

def defaultPrecision : Value := .int default.floatPrecision

def member? (entries : List (Value × Value)) (name : String) : Option Value :=
  (entries.find? (·.1.isText name)).map (·.2)

def names (entries : List (Value × Value)) : List String :=
  entries.filterMap fun
    | (.text name, _) => some name
    | _ => none

def knownNames : List String := ["config_version", "float_precision", "max_nesting"]

def refuse (location : String) : Document.Refusal → Fault
  | .malformed cause => .settings (.malformed location cause)
  | .givenTwice name => .settings (.givenTwice name)
  | .numeralTooLong digits => .value (.numeralTooLongToRead digits)

def documentOf (location : String) (bytes : List UInt8) : Except Fault Value :=
  match String.fromUTF8? (ByteArray.mk bytes.toArray) with
  | none => .error (.settings (.notUtf8 location))
  | some text => (Document.read text.toList).mapError (refuse location)

/-- The members of a settings document: of the version read here, and with no others. -/
def membersOf (location : String) (document : Value) : Except Fault (List (Value × Value)) :=
  match document with
  | .mapping entries => do
    let version := (member? entries "config_version").getD .null
    if !version.isText "1" then
      throw (.settings (.version location (← version.shown)))
    let unknown := (names entries).filter fun name => !knownNames.contains name
    if !unknown.isEmpty then
      let shown ← (Value.list ((Text.sorted unknown).map .text)).shown
      throw (.settings (.unknown location shown))
    return entries
  | _ => .error (.settings (.notObject location))

/-- Loads settings from a file, with the digest of its bytes. The location is how messages name the
file. The load is noted down before the values are looked at. -/
def load (location : String) (path : Path) : Request (Settings × String) := do
  let bytes ← Request.readFile path
  let document ← Request.check (documentOf location bytes)
  let entries ← Request.check (membersOf location document)
  let digest := Sha256.digest bytes
  Request.note (.loaded location digest)
  let settings ← Request.check (ofValues
    ((member? entries "float_precision").getD defaultPrecision)
    ((member? entries "max_nesting").getD .null))
  return (settings, digest)

/-- The location and the path of the file that a value names: a text is taken as it is, a path in
its one spelling. -/
def fileOf? : Value → Option (String × Path)
  | .text s => some (s, Path.ofString s)
  | .path path => some (path.text, path)
  | _ => none

/-- The settings that a value names: its own, those of a file, or the ones to fall back on. -/
def resolve (source : Value) (fallback : Settings) : Request Settings :=
  match source with
  | .null => pure fallback
  | .settings s => pure s
  | v =>
    match fileOf? v with
    | some (location, path) => do return (← load location path).1
    | none => throw (.ofKind .settingsSource v)

end JsonWriter.Settings
