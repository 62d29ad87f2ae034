import JsonWriter.Binary64.Reading
import JsonWriter.Text.Basic
import JsonWriter.Value.Checked

/-! The JSON texts of single values, for values of any kind. -/
namespace JsonWriter.Scalar

def escape : Value → Except Fault String
  | .text s => .ok (Text.escape s)
  | v => .error (.ofKind .notText v)

def quote : Value → Except Fault String
  | .text s => .ok (Text.quote s)
  | v => .error (.ofKind .notText v)

/-- Any value has a truth value. -/
def bool (v : Value) : String := if v.isTrue then "true" else "false"

def integerText (n : Int) : Except Fault String :=
  match Numeral.ofInt? n with
  | some text => .ok text
  | none => .error (.value .numeralTooLong)

/-- Truth values are no integers, though they count as numbers elsewhere. -/
def integer : Value → Except Fault String
  | .bool _ => .error (.type .boolAsInteger)
  | .int n => integerText n
  | v => .error (.ofKind .notInteger v)

/-- A precision that is not negative. Only whole ones are of use, but the others are refused later,
where the precision is needed. -/
inductive Precision where
  | digits (n : Nat)
  | truth
  | float (x : Binary64)

def Precision.ofValue : Value → Except Fault Precision
  | .bool _ => .ok .truth
  | .int n => if n < 0 then .error (.value .negativePrecision) else .ok (.digits n.toNat)
  | .float x =>
    if x.negative && !x.isZero && !x.isNaN then .error (.value .negativePrecision)
    else .ok (.float x)
  | v => .error (.ofKind .precisionNotNumber v)

/-- A precision is below 2 to the 31. One that is no integer is never of use; what it is refused for
depends on whether its text begins with a digit. -/
def Precision.check : Precision → Except Fault Nat
  | .digits n => do
    let _ ← integerText n
    if 0x8000000000000000 ≤ n then throw (.value .precisionTooManyDigits)
    if 0x80000000 ≤ n then throw (.value .precisionTooBig)
    return n
  | .truth => .error (.value .precisionMissing)
  | .float x =>
    let shown := x.display
    if shown.toList.head?.any Char.isDigit then .error (.value (.precisionMalformed shown))
    else .error (.value .precisionMissing)

/-- The 64-bit number that a value stands for: numbers, truth values, and texts of numbers. -/
def number : Value → Except Fault Binary64
  | .float x => .ok x
  | .bool b => .ok (Binary64.ofRatio false b.toNat 1)
  | .int n =>
    match Binary64.ofInt? n with
    | some x => .ok x
    | none => .error .integerTooLarge
  | .text s =>
    match Binary64.read? s with
    | some x => .ok x
    | none => .error (.value (.notNumeral (Text.display s)))
  | .bytes b =>
    match Binary64.readAscii? (b.map fun byte => Char.ofNat byte.toNat) with
    | some x => .ok x
    | none => .error (.value (.notNumeral (Text.displayBytes b)))
  | v => .error (.ofKind .notNumber v)

/-- A negative precision is refused first; whether the precision is of use is asked only for a
finite number. -/
def float (v precision : Value) : Except Fault String := do
  let precision ← Precision.ofValue precision
  let x ← number v
  if x.isFinite then return x.toJson (← precision.check) else return "null"

end JsonWriter.Scalar
