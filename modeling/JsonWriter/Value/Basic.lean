import JsonWriter.Binary64.Basic
import JsonWriter.Files.Path
import JsonWriter.Text.Quoted

/-! Values: what a caller may hand to the writer. Not every value has a JSON form. Settings of a writer
and lists of pairs are values too. -/
namespace JsonWriter

/-- How many significant digits a number gets at most, and how deep containers may nest. With 17
digits every 64-bit number reads back as itself, so more are never asked for. -/
structure Settings where
  floatPrecision : Nat := 6
  maxNesting : Option Nat := none
  floatPrecision_le : floatPrecision ≤ 17 := by decide
  maxNesting_pos : ∀ n, maxNesting = some n → 0 < n := by nofun
deriving DecidableEq

namespace Settings

/-- The settings of a writer that names none. -/
def default : Settings := {}

/-- The settings for whole values: their numbers read back unchanged. -/
def roundTrip : Settings := { floatPrecision := 17 }

end Settings

/-- An ordered list of pairs of texts. A key may occur more than once, and every pair is kept. -/
structure PairList where
  entries : List (String × String)
deriving DecidableEq

namespace PairList

def empty : PairList := ⟨[]⟩

def push (p : PairList) (key value : String) : PairList := ⟨p.entries ++ [(key, value)]⟩

def get? (p : PairList) (key : String) : Option String :=
  (p.entries.find? (·.1 == key)).map (·.2)

def keys (p : PairList) : List String := p.entries.map (·.1)

def display (p : PairList) : String :=
  let pairs := p.entries.map fun (key, value) =>
    "(" ++ Text.display key ++ ", " ++ Text.display value ++ ")"
  "KeyValuePairs([" ++ String.intercalate ", " pairs ++ "])"

end PairList

/-- A value. The entries of a mapping have distinct keys, the members of a set are distinct. Of an
unknown value nothing can be told but its kind. -/
inductive Value where
  | null
  | bool (b : Bool)
  | int (n : Int)
  | float (x : Binary64)
  | text (s : String)
  | list (items : List Value)
  | tuple (items : List Value)
  | set (members : List Value)
  | mapping (entries : List (Value × Value))
  | pairs (p : PairList)
  | bytes (b : List UInt8)
  | unknown
  | path (p : Path)
  | settings (s : Settings)

/-- The kinds of values, as messages name them. -/
inductive Kind where
  | null | bool | int | float | text | list | tuple | set | mapping | pairs | bytes | unknown | path
  | settings
deriving DecidableEq, Repr

namespace Kind

def name : Kind → String
  | null => "NoneType"
  | bool => "bool"
  | int => "int"
  | float => "float"
  | text => "str"
  | list => "list"
  | tuple => "tuple"
  | set => "set"
  | mapping => "dict"
  | pairs => "KeyValuePairs"
  | bytes => "bytes"
  | unknown => "object"
  | path => "PosixPath"
  | settings => "JsonConfig"

/-- The name with the place where the kind is defined. -/
def qualifiedName : Kind → String
  | pairs => "jsongen.kvpair.KeyValuePairs"
  | settings => "jsongen.config_io.JsonConfig"
  | path => "pathlib.PosixPath"
  | kind => kind.name

def className (k : Kind) : String := "<class '" ++ k.qualifiedName ++ "'>"

end Kind

namespace Value

def kind : Value → Kind
  | null => .null
  | bool _ => .bool
  | int _ => .int
  | float _ => .float
  | text _ => .text
  | list _ => .list
  | tuple _ => .tuple
  | set _ => .set
  | mapping _ => .mapping
  | pairs _ => .pairs
  | bytes _ => .bytes
  | unknown => .unknown
  | path _ => .path
  | settings _ => .settings

def isText : Value → String → Bool
  | text s, t => s == t
  | _, _ => false

def orElse : Value → Value → Value
  | null, fallback => fallback
  | v, _ => v

/-- Whether a value counts as true: all do but null, false, zeros and what holds nothing. -/
def isTrue : Value → Bool
  | null => false
  | bool b => b
  | int n => n ≠ 0
  | float x => !x.isZero
  | text s => s ≠ ""
  | list items | tuple items | set items => !items.isEmpty
  | mapping entries => !entries.isEmpty
  | pairs p => !p.entries.isEmpty
  | bytes b => !b.isEmpty
  | unknown | path _ | settings _ => true

/-- What going through a value yields: the characters of a text, the keys of a mapping, the pairs of
a pair list as tuples, the numbers of bytes. A value that is no collection cannot be gone through. -/
def items? : Value → Option (List Value)
  | text s => some (s.toList.map fun c => text (String.singleton c))
  | list items | tuple items | set items => some items
  | mapping entries => some (entries.map (·.1))
  | pairs p => some (p.entries.map fun (key, value) => tuple [text key, text value])
  | bytes b => some (b.map fun byte => int byte.toNat)
  | null | bool _ | int _ | float _ | unknown | path _ | settings _ => none

end Value

end JsonWriter
