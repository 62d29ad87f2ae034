import JsonWriter.Fault

/-! Values as messages show them, and values taken as what a request needs: a collection, a pair. A
value with an integer too long for a numeral cannot be shown. -/
namespace JsonWriter

def Settings.display? (s : Settings) : Option String := do
  let nesting ← match s.maxNesting with
    | none => some "None"
    | some n => Numeral.ofInt? n
  return "JsonConfig(float_precision=" ++ Numeral.ofCount s.floatPrecision ++ ", max_nesting="
    ++ nesting ++ ")"

def Path.display (p : Path) : String := "PosixPath(" ++ Text.display p.text ++ ")"

namespace Value

/-- A tuple of one item keeps a comma, which sets it apart from an item in brackets. -/
def displayTuple : List String → String
  | [item] => "(" ++ item ++ ",)"
  | items => "(" ++ String.intercalate ", " items ++ ")"

/-- The empty set has no form in braces, which would be the empty mapping. -/
def displaySet : List String → String
  | [] => "set()"
  | members => "\x7b" ++ String.intercalate ", " members ++ "\x7d"

mutual

def display? : Value → Option String
  | null => some "None"
  | bool true => some "True"
  | bool false => some "False"
  | int n => Numeral.ofInt? n
  | float x => some x.display
  | text s => some (Text.display s)
  | list items => (displayAll? items).map fun shown => "[" ++ String.intercalate ", " shown ++ "]"
  | tuple items => (displayAll? items).map displayTuple
  | set members => (displayAll? members).map displaySet
  | mapping entries =>
    (displayEntries? entries).map fun shown => "\x7b" ++ String.intercalate ", " shown ++ "\x7d"
  | pairs p => some p.display
  | bytes b => some (Text.displayBytes b)
  | unknown => some "<object object>"
  | path p => some p.display
  | settings s => s.display?

def displayAll? : List Value → Option (List String)
  | [] => some []
  | v :: rest => do return (← display? v) :: (← displayAll? rest)

def displayEntries? : List (Value × Value) → Option (List String)
  | [] => some []
  | (key, value) :: rest => do
    return ((← display? key) ++ ": " ++ (← display? value)) :: (← displayEntries? rest)

end

end Value

def Fault.ofKind (cause : Kind → TypeFault) (v : Value) : Fault := .type (cause v.kind)

namespace Value

def shown (v : Value) : Except Fault String :=
  match v.display? with
  | some shown => .ok shown
  | none => .error (.value .numeralTooLong)

def collection (v : Value) : Except Fault (List Value) :=
  match v.items? with
  | some items => .ok items
  | none => .error (.ofKind .notCollection v)

def pair (v : Value) : Except Fault (Value × Value) :=
  match v.items? with
  | some [first, second] => .ok (first, second)
  | some [] => .error (.value (.tooFewInPair 0))
  | some [_] => .error (.value (.tooFewInPair 1))
  | some _ => .error (.value .tooManyInPair)
  | none => .error (.ofKind .notPair v)

end Value

end JsonWriter
