import JsonWriter.Fault

/-! Values as the keys of mappings and the members of sets: when two count as one key, and mappings
and sets built from a list in which keys may be repeated. -/
namespace JsonWriter.Value

def exactNumber? : Value → Option (Int × Nat)
  | bool b => some (b.toNat, 1)
  | int n => some (n, 1)
  | float x =>
    if x.isFinite then
      some (if x.negative then -(x.numerator : Int) else x.numerator, x.denominator)
    else none
  | _ => none

/-- Numbers are compared by their exact values, whatever their kinds. -/
def sameNumber (v w : Value) : Bool :=
  match v.exactNumber?, w.exactNumber? with
  | some (num, den), some (num', den') => num * den' == num' * den
  | _, _ => false

mutual

/-- Whether two values count as one key. Unknown things and pair lists are each their own. -/
def sameKey : Value → Value → Bool
  | null, null => true
  | text s, text t => s == t
  | bytes b, bytes c => b == c
  | path p, path q => p == q
  | settings s, settings t => s == t
  | tuple items, tuple others => sameKeys items others
  | float x, float y => sameNumber (float x) (float y) || (x == y && !x.isFinite && !x.isNaN)
  | v, w => sameNumber v w

def sameKeys : List Value → List Value → Bool
  | [], [] => true
  | v :: rest, w :: others => sameKey v w && sameKeys rest others
  | _, _ => false

end

mutual

/-- The kind for which a value can be no key: collections that can change are none, nor is a tuple
that holds one. -/
def notHashable? : Value → Option Kind
  | list _ => some .list
  | mapping _ => some .mapping
  | set _ => some .set
  | tuple items => firstNotHashable? items
  | _ => none

def firstNotHashable? : List Value → Option Kind
  | [] => none
  | v :: rest => (notHashable? v).or (firstNotHashable? rest)

end

def checkKey (key : Value) : Except Fault Unit :=
  match key.notHashable? with
  | none => .ok ()
  | some kind => .error (.type (.notHashable kind))

/-- A key that is there already keeps its place, and the key's first form, but takes the value. -/
def insertEntry (entries : List (Value × Value)) (key value : Value) : List (Value × Value) :=
  if entries.any (sameKey key ·.1) then
    entries.map fun entry => if sameKey key entry.1 then (entry.1, value) else entry
  else entries ++ [(key, value)]

def mappingOf (entries : List (Value × Value)) : Except Fault Value := do
  entries.forM fun (key, _) => checkKey key
  return mapping (entries.foldl (fun found (key, value) => insertEntry found key value) [])

def setOf (members : List Value) : Except Fault Value := do
  members.forM checkKey
  return set (members.foldl
    (fun found v => if found.any (sameKey v) then found else found ++ [v]) [])

end JsonWriter.Value
