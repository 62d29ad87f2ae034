import JsonWriter.Proofs.Json.ScalarText
import JsonWriter.Value.Basic

/-! The JSON value that a value stands for, and the text that denotes it. -/
namespace JsonWriter.Value

def named {α : Type} (entries : List (Value × α)) : List (String × α) :=
  entries.filterMap fun
    | (text k, v) => some (k, v)
    | _ => none

/-- The members of a mapping, in their order or in that of their keys. -/
def members {α : Type} (sortKeys : Bool) (entries : List (Value × α)) : List (String × α) :=
  if sortKeys then (named entries).mergeSort (fun m n => m.1 ≤ n.1) else named entries

theorem named_map {α β : Type} (entries : List (Value × α)) (f : α → β) :
    named (entries.map fun e => (e.1, f e.2)) = (named entries).map fun m => (m.1, f m.2) := by
  induction entries with
  | nil => rfl
  | cons e entries ih =>
      obtain ⟨k, v⟩ := e
      cases k with
      | text k => exact congrArg ((k, f v) :: ·) ih
      | _ => exact ih

theorem members_map {α β : Type} (sortKeys : Bool) (entries : List (Value × α)) (f : α → β) :
    members sortKeys (entries.map fun e => (e.1, f e.2)) =
      (members sortKeys entries).map fun m => (m.1, f m.2) := by
  unfold members
  rw [named_map]
  cases sortKeys with
  | true =>
      have hsort := List.map_mergeSort (f := fun m : String × α => (m.1, f m.2))
        (r := fun m n => m.1 ≤ n.1) (s := fun m n => m.1 ≤ n.1) (l := named entries)
        (fun _ _ _ _ => rfl)
      exact hsort.symm
  | false => rfl

theorem members_perm {α : Type} (sortKeys : Bool) (entries : List (Value × α)) :
    (members sortKeys entries).Perm (named entries) := by
  unfold members
  cases sortKeys with
  | true => exact List.mergeSort_perm _ _
  | false => exact List.Perm.refl _

theorem pairwise_members {α : Type} (entries : List (Value × α)) :
    (members true entries).Pairwise fun m n => m.1 ≤ n.1 := by
  have htrans : ∀ a b c : String × α,
      decide (a.1 ≤ b.1) = true → decide (b.1 ≤ c.1) = true → decide (a.1 ≤ c.1) = true := by
    intro a b c hab hbc
    rw [decide_eq_true_eq] at hab hbc ⊢
    exact le_trans hab hbc
  have htotal : ∀ a b : String × α, (decide (a.1 ≤ b.1) || decide (b.1 ≤ a.1)) = true := by
    intro a b
    rw [Bool.or_eq_true, decide_eq_true_eq, decide_eq_true_eq]
    exact le_total a.1 b.1
  have hsorted := List.pairwise_mergeSort htrans htotal (named entries)
  simp only [decide_eq_true_eq] at hsorted
  exact hsorted

theorem mem_of_mem_members {α : Type} {sortKeys : Bool} {entries : List (Value × α)}
    {m : String × α} (h : m ∈ members sortKeys entries) : (text m.1, m.2) ∈ entries := by
  have hnamed : m ∈ named entries := (members_perm sortKeys entries).mem_iff.1 h
  obtain ⟨⟨k, v⟩, hmem, heq⟩ := List.mem_filterMap.1 hnamed
  cases k with
  | text k =>
      cases heq
      exact hmem
  | _ => cases heq

def parts (sortKeys : Bool) : Value → List Value
  | list items | tuple items => items
  | mapping entries => (members sortKeys entries).map (·.2)
  | pairs p => p.entries.map fun e => text e.2
  | _ => []

theorem sizeOf_lt_of_mem_entries {entries : List (Value × Value)} {e : Value × Value}
    (h : e ∈ entries) : sizeOf e.2 < sizeOf (mapping entries) := by
  have he := List.sizeOf_lt_of_mem h
  obtain ⟨k, v⟩ := e
  simp only [mapping.sizeOf_spec, Prod.mk.sizeOf_spec] at he ⊢
  omega

theorem sizeOf_lt_of_mem_parts (sortKeys : Bool) {v u : Value} (h : u ∈ parts sortKeys v) :
    sizeOf u < sizeOf v := by
  cases v with
  | list items =>
      have hu : sizeOf u < sizeOf items := List.sizeOf_lt_of_mem h
      simp only [list.sizeOf_spec]
      omega
  | tuple items =>
      have hu : sizeOf u < sizeOf items := List.sizeOf_lt_of_mem h
      simp only [tuple.sizeOf_spec]
      omega
  | mapping entries =>
      obtain ⟨m, hm, rfl⟩ := List.mem_map.1 h
      exact sizeOf_lt_of_mem_entries (mem_of_mem_members hm)
  | pairs p =>
      obtain ⟨⟨k, s⟩, he, rfl⟩ := List.mem_map.1 h
      have hu := List.sizeOf_lt_of_mem he
      obtain ⟨entries⟩ := p
      simp only [pairs.sizeOf_spec, text.sizeOf_spec, PairList.mk.sizeOf_spec,
        Prod.mk.sizeOf_spec] at hu ⊢
      omega
  | _ => cases h

/-- What holds of a value whenever it holds of its parts, holds of every value. -/
theorem inductionOnParts (sortKeys : Bool) {motive : Value → Prop}
    (step : ∀ v, (∀ u ∈ parts sortKeys v, motive u) → motive v) (v : Value) : motive v :=
  step v fun u _ => inductionOnParts sortKeys step u
termination_by sizeOf v
decreasing_by exact sizeOf_lt_of_mem_parts sortKeys ‹_›

/-- The JSON value that a value stands for. Numbers are those that are written at a precision. -/
def normal (precision : Nat) (sortKeys : Bool) : Value → Json
  | null => .null
  | bool b => .bool b
  | int n => .number n
  | float x => x.json precision
  | text s => .string s
  | list items | tuple items => .array (items.map fun v => normal precision sortKeys v)
  | mapping entries =>
    .object (members sortKeys (entries.map fun e => (e.1, normal precision sortKeys e.2)))
  | pairs p => .object (p.entries.map fun e => (e.1, .string e.2))
  | set _ | bytes _ | unknown | path _ | settings _ => .null
termination_by v => sizeOf v
decreasing_by
  · exact sizeOf_lt_of_mem_parts false (v := list items) ‹_›
  · exact sizeOf_lt_of_mem_parts false (v := tuple items) ‹_›
  · exact sizeOf_lt_of_mem_entries ‹_›

def arrayText (items : List (List Char)) : List Char :=
  '[' :: (List.intercalate [','] items ++ [']'])

def objectText (members : List (String × List Char)) : List Char :=
  '\x7b' :: (List.intercalate [','] (members.map fun m => (Text.quote m.1).toList ++ ':' :: m.2)
    ++ ['\x7d'])

/-- The compact text of the JSON value that a value stands for. -/
def jsonText (precision : Nat) (sortKeys : Bool) : Value → List Char
  | bool b => if b then ['t', 'r', 'u', 'e'] else ['f', 'a', 'l', 's', 'e']
  | int n => Numeral.ofInt n
  | float x => (x.toJson precision).toList
  | text s => (Text.quote s).toList
  | list items | tuple items => arrayText (items.map fun v => jsonText precision sortKeys v)
  | mapping entries =>
    objectText (members sortKeys (entries.map fun e => (e.1, jsonText precision sortKeys e.2)))
  | pairs p => objectText (p.entries.map fun e => (e.1, (Text.quote e.2).toList))
  | null | set _ | bytes _ | unknown | path _ | settings _ => ['n', 'u', 'l', 'l']
termination_by v => sizeOf v
decreasing_by
  · exact sizeOf_lt_of_mem_parts false (v := list items) ‹_›
  · exact sizeOf_lt_of_mem_parts false (v := tuple items) ‹_›
  · exact sizeOf_lt_of_mem_entries ‹_›

variable {α : Type} {precision : Nat} {sortKeys : Bool}

theorem normal_mapping (entries : List (Value × Value)) :
    normal precision sortKeys (mapping entries) =
      .object ((members sortKeys entries).map fun m => (m.1, normal precision sortKeys m.2)) := by
  rw [normal, members_map]

theorem jsonText_mapping (entries : List (Value × Value)) :
    jsonText precision sortKeys (mapping entries) = objectText
      ((members sortKeys entries).map fun m => (m.1, jsonText precision sortKeys m.2)) := by
  rw [jsonText, members_map]

theorem denotes_arrayText {text : α → List Char} {value : α → Json} (as : List α)
    (h : ∀ a ∈ as, Json.Denotes (text a) (value a)) :
    Json.Denotes (arrayText (as.map text)) (.array (as.map value)) :=
  (Json.itemRow_intercalate as fun a ha => (h a ha).spaced).denotes

theorem denotes_objectText {text : String × α → List Char} {value : String × α → Json}
    (as : List (String × α)) (h : ∀ a ∈ as, Json.Denotes (text a) (value a)) :
    Json.Denotes (objectText (as.map fun a => (a.1, text a)))
      (.object (as.map fun a => (a.1, value a))) := by
  have hmember : ∀ a ∈ as,
      Json.Member ((Text.quote a.1).toList ++ ':' :: text a) (a.1, value a) := by
    intro a ha
    exact Json.member_quote a.1 (h a ha).spaced
  have hrow := Json.memberRow_intercalate as hmember
  unfold objectText
  rw [List.map_map]
  exact hrow.denotes

theorem denotes_jsonText (precision : Nat) (sortKeys : Bool) (v : Value) :
    Json.Denotes (v.jsonText precision sortKeys) (v.normal precision sortKeys) := by
  induction v using inductionOnParts sortKeys with
  | step v ih =>
      cases v with
      | bool b =>
          rw [jsonText, normal]
          cases b with
          | true => exact .trueWord
          | false => exact .falseWord
      | int n =>
          rw [jsonText, normal]
          exact .number (Json.number_ofInt n)
      | float x =>
          rw [jsonText, normal]
          exact Json.denotes_toJson precision x
      | text s =>
          rw [jsonText, normal]
          exact Json.denotes_quote s
      | list items =>
          rw [jsonText, normal]
          exact denotes_arrayText items ih
      | tuple items =>
          rw [jsonText, normal]
          exact denotes_arrayText items ih
      | mapping entries =>
          rw [jsonText_mapping, normal_mapping]
          exact denotes_objectText (members sortKeys entries)
            fun m hm => ih m.2 (List.mem_map_of_mem hm)
      | pairs p =>
          rw [jsonText, normal]
          exact denotes_objectText p.entries fun e _ => Json.denotes_quote e.2
      | null | set _ | bytes _ | unknown | path _ | settings _ =>
          rw [jsonText, normal]
          exact .nullWord

end JsonWriter.Value
