import JsonWriter.Nesting.Stack
import JsonWriter.Value.Basic

/-! Why a request fails, and the message that says so. -/
namespace JsonWriter

/-- A value of a kind that is of no use where it stands. -/
inductive TypeFault where
  | notText (k : Kind)
  | boolAsInteger
  | notInteger (k : Kind)
  | precisionNotNumber (k : Kind)
  | notNumber (k : Kind)
  | rawNotText (k : Kind)
  | notCollection (k : Kind)
  | notPair (k : Kind)
  | arrayItem (k : Kind)
  | pairTexts (key value : Kind)
  | pairKey (k : Kind)
  | pairValue (k : Kind)
  | objectKey (k : Kind)
  | noJsonForm (k : Kind)
  | settingsSource (k : Kind)
  | notHashable (k : Kind)

def TypeFault.message : TypeFault → String
  | notText k => "expected str, got " ++ k.className
  | boolAsInteger => "bool is not an integer here, use a JSON boolean"
  | notInteger k => "'" ++ k.name ++ "' object cannot be interpreted as an integer"
  | precisionNotNumber k => "'<' not supported between instances of '" ++ k.name ++ "' and 'int'"
  | notNumber k => "float() argument must be a string or a real number, not '" ++ k.name ++ "'"
  | rawNotText k => "can only concatenate str (not \"" ++ k.name ++ "\") to str"
  | notCollection k => "'" ++ k.name ++ "' object is not iterable"
  | notPair k => "cannot unpack non-iterable " ++ k.name ++ " object"
  | arrayItem k => "array item must be str or None, got " ++ k.className
  | pairTexts key value =>
    "pair must be (str, str), got (" ++ key.className ++ ", " ++ value.className ++ ")"
  | pairKey k => "key must be str, got " ++ k.className
  | pairValue k => "value must be str, got " ++ k.className
  | objectKey k => "object keys must be str, got " ++ k.className
  | noJsonForm k => "unsupported type for JSON output: " ++ k.className
  | settingsSource k => "expected JsonConfig or settings path, got " ++ k.className
  | notHashable k => "unhashable type: '" ++ k.name ++ "'"

/-- A value of the right kind that is out of bounds. -/
inductive ValueFault where
  | negativePrecision
  | precisionMissing
  | precisionTooBig
  | precisionTooManyDigits
  | precisionMalformed (shown : String)
  | notNumeral (shown : String)
  | numeralTooLong
  | numeralTooLongToRead (digits : Nat)
  | tooFewInPair (count : Nat)
  | tooManyInPair
  | frameKind (shown : String)
  | nulInPath

def ValueFault.message : ValueFault → String
  | negativePrecision => "precision must be >= 0"
  | precisionMissing => "Format specifier missing precision"
  | precisionTooBig => "precision too big"
  | precisionTooManyDigits => "Too many decimal digits in format string"
  | precisionMalformed shown =>
    "Invalid format specifier '." ++ shown ++ "g' for object of type 'float'"
  | notNumeral shown => "could not convert string to float: " ++ shown
  | numeralTooLong => tooLong ++ "; " ++ remedy
  | numeralTooLongToRead digits =>
    tooLong ++ ": value has " ++ Numeral.ofCount digits ++ " digits; " ++ remedy
  | tooFewInPair count =>
    "not enough values to unpack (expected 2, got " ++ Numeral.ofCount count ++ ")"
  | tooManyInPair => "too many values to unpack (expected 2)"
  | frameKind shown => shown ++ " is not a valid FrameKind"
  | nulInPath => "embedded null byte"
where
  tooLong := "Exceeds the limit (" ++ Numeral.ofCount Numeral.maxDigits
    ++ " digits) for integer string conversion"
  remedy := "use sys.set_int_max_str_digits() to increase the limit"

inductive SyntaxFault where
  | value
  | memberName
  | colon
  | comma
  | openString
  | controlInString
  | escape
  | unicodeEscape
  | trailingText
  | byteOrderMark
deriving DecidableEq, Repr

def SyntaxFault.message : SyntaxFault → String
  | value => "Expecting value"
  | memberName => "Expecting property name enclosed in double quotes"
  | colon => "Expecting ':' delimiter"
  | comma => "Expecting ',' delimiter"
  | openString => "Unterminated string starting at"
  | controlInString => "Invalid control character at"
  | escape => "Invalid \\escape"
  | unicodeEscape => "Invalid \\uXXXX escape"
  | trailingText => "Extra data"
  | byteOrderMark => "Unexpected UTF-8 BOM (decode using utf-8-sig)"

/-- Settings that are no settings. What a file is refused for begins with its path. -/
inductive SettingsFault where
  | precisionType (shown : String)
  | precisionRange (shown : String)
  | nesting (shown : String)
  | notUtf8 (path : String)
  | malformed (path : String) (cause : SyntaxFault)
  | notObject (path : String)
  | version (path shown : String)
  | unknown (path shown : String)
  | givenTwice (name : String)

def SettingsFault.message : SettingsFault → String
  | precisionType shown => "float_precision must be an integer, got " ++ shown
  | precisionRange shown => "float_precision must be in [0, 17], got " ++ shown
  | nesting shown => "max_nesting must be a positive integer or null, got " ++ shown
  | notUtf8 path => path ++ ": settings file is not UTF-8"
  | malformed path cause => path ++ ": malformed JSON (" ++ cause.message ++ ")"
  | notObject path => path ++ ": settings must be a JSON object"
  | version path shown =>
    path ++ ": config_version " ++ shown ++ " is not supported, expected '1'"
  | unknown path shown => path ++ ": unknown settings " ++ shown
  | givenTwice name => "setting given twice: " ++ name

inductive FileFault where
  | missing | isDirectory | notDirectory | nameTooLong
deriving DecidableEq, Repr

def FileFault.message : FileFault → String
  | missing => "[Errno 2] No such file or directory: "
  | isDirectory => "[Errno 21] Is a directory: "
  | notDirectory => "[Errno 20] Not a directory: "
  | nameTooLong => "[Errno 36] File name too long: "

inductive Fault where
  | type (cause : TypeFault)
  | value (cause : ValueFault)
  | integerTooLarge
  | nesting (cause : Violation)
  | leftOpen (level : Nat)
  | settings (cause : SettingsFault)
  | file (cause : FileFault) (path : Path)
  | raised (text : String)

def Fault.message : Fault → String
  | type cause => cause.message
  | value cause => cause.message
  | integerTooLarge => "int too large to convert to float"
  | nesting cause => cause.message?.getD ""
  | leftOpen level => "document left open at level " ++ Numeral.ofCount level
  | settings cause => cause.message
  | file cause path => cause.message ++ Text.display path.text
  | raised text => text

/-- What a violation fails with. Where it cannot be said, that is the failure. -/
def Violation.fault (cause : Violation) : Fault :=
  if cause.message?.isSome then .nesting cause else .value .numeralTooLong

/-- Only of a limit nothing can be said, where it has no numeral. -/
theorem Violation.isSome_message?_iff (cause : Violation) :
    cause.message?.isSome ↔ ∀ n, cause = .tooDeep n → (Numeral.ofInt? n).isSome := by
  cases cause with
  | tooDeep limit =>
    rw [message?, Option.isSome_map]
    refine ⟨?_, fun h => h limit rfl⟩
    rintro h _ ⟨⟩
    exact h
  | _ => exact iff_of_true rfl nofun

inductive LogLine where
  | violation (level : Nat) (cause : Violation)
  | loaded (path digest : String)

def LogLine.text : LogLine → String
  | violation level cause =>
    "well-formedness violation at level " ++ Numeral.ofCount level ++ ": "
      ++ cause.message?.getD ""
  | loaded path digest => "loaded writer settings from " ++ path ++ " (sha256 " ++ digest ++ ")"

/-- What a violation leaves in the log: a line, if it can be said. -/
def Violation.lines (level : Nat) (cause : Violation) : List LogLine :=
  if cause.message?.isSome then [.violation level cause] else []

end JsonWriter
