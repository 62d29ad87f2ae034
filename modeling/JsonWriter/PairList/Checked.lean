import JsonWriter.Value.Checked

/-! Pair lists filled from values, which are refused unless they are texts, and the uses that are made
of them. -/
namespace JsonWriter.PairList

/-- Adds a pair; of two values that are no texts the key is reported. -/
def add (p : PairList) (key value : Value) : Except Fault PairList :=
  match key, value with
  | .text key, .text value => .ok (p.push key value)
  | .text _, value => .error (.ofKind .pairValue value)
  | key, _ => .error (.ofKind .pairKey key)

/-- The value of the first pair with a key, or the given one. No pair has a key that is no text. -/
def find (p : PairList) (key fallback : Value) : Value :=
  match key with
  | .text key => ((p.get? key).map .text).getD fallback
  | _ => fallback

/-- The pairs of a collection. Every value that counts as false stands for no pairs. -/
def ofValue (v : Value) : Except Fault PairList :=
  if v.isTrue then do
    (← v.collection).foldlM (fun p item => do
      let (key, value) ← item.pair
      p.add key value) empty
  else .ok empty

inductive Use where
  | add (key value : Value)
  | get (key fallback : Value)
  | keys
  | pairs
  | length
  | display
  | clear

/-- What a use answers: nothing, a value, the keys, the pairs, a number or a text. -/
inductive Answer where
  | nothing
  | value (v : Value)
  | keys (names : List String)
  | pairs (entries : List (String × String))
  | length (n : Nat)
  | text (s : String)

/-- What a use answers, and the pair list after it. A pair that is refused is not kept. -/
def use (p : PairList) : Use → Except Fault Answer × PairList
  | .add key value =>
    match p.add key value with
    | .ok added => (.ok .nothing, added)
    | .error fault => (.error fault, p)
  | .get key fallback => (.ok (.value (p.find key fallback)), p)
  | .keys => (.ok (.keys p.keys), p)
  | .pairs => (.ok (.pairs p.entries), p)
  | .length => (.ok (.length p.entries.length), p)
  | .display => (.ok (.text p.display), p)
  | .clear => (.ok .nothing, empty)

/-- The pair list after uses that are made one by one, whether they succeed or fail. -/
def useAll (p : PairList) (uses : List Use) : PairList := uses.foldl (fun p u => (p.use u).2) p

end JsonWriter.PairList
