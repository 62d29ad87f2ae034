import JsonWriter.Proofs.Session.Bulk
import Mathlib

/-! What a pair list holds after any uses of it, what it answers then, and what a session writes of
it. -/
namespace JsonWriter

namespace Value

/-- The pairs of texts that a value stands for: going through it yields two texts each time. Every
value that counts as false stands for no pairs. -/
def StandsFor (v : Value) (ps : List (String × String)) : Prop :=
  if v.isTrue then
    ∃ items, v.items? = some items ∧
      List.Forall₂ (fun item p => item.items? = some [text p.1, text p.2]) items ps
  else ps = []

theorem collection_eq_ok_iff {v : Value} {items : List Value} :
    v.collection = .ok items ↔ v.items? = some items := by
  unfold collection
  cases v.items? with
  | none => simp
  | some found => simp

theorem pair_eq_ok_iff {v first second : Value} :
    v.pair = .ok (first, second) ↔ v.items? = some [first, second] := by
  unfold pair
  cases v.items? with
  | none => simp
  | some items =>
      match items with
      | [] | [_] | [_, _] | _ :: _ :: _ :: _ => simp

theorem exists_of_kind_eq_text {v : Value} (h : v.kind = .text) : ∃ t, v = text t := by
  cases v with
  | text t => exact ⟨t, rfl⟩
  | _ => cases h

end Value

namespace PairList

def Use.pair? : Use → Option (String × String)
  | add (.text key) (.text value) => some (key, value)
  | _ => none

variable {p q : PairList}

theorem add_of_key {key : Value} (value : Value) (h : key.kind ≠ .text) (p : PairList) :
    p.add key value = .error (.type (.pairKey key.kind)) := by
  cases key with
  | text k => exact absurd rfl h
  | _ => rfl

theorem add_of_value (k : String) {value : Value} (h : value.kind ≠ .text) (p : PairList) :
    p.add (.text k) value = .error (.type (.pairValue value.kind)) := by
  cases value with
  | text t => exact absurd rfl h
  | _ => rfl

theorem add_eq_ok_iff {key value : Value} : p.add key value = .ok q ↔
    ∃ k t, key = .text k ∧ value = .text t ∧ q = p.push k t := by
  constructor
  · intro h
    by_cases hkey : key.kind = .text
    · obtain ⟨k, rfl⟩ := Value.exists_of_kind_eq_text hkey
      by_cases hvalue : value.kind = .text
      · obtain ⟨t, rfl⟩ := Value.exists_of_kind_eq_text hvalue
        exact ⟨k, t, rfl, rfl, (Except.ok.inj h).symm⟩
      · rw [add_of_value k hvalue] at h
        cases h
    · rw [add_of_key value hkey] at h
      cases h
  · rintro ⟨k, t, rfl, rfl, rfl⟩
    rfl

def addItem (p : PairList) (item : Value) : Except Fault PairList := do
  let (key, value) ← item.pair
  p.add key value

theorem addItem_eq_ok_iff {item : Value} : p.addItem item = .ok q ↔
    ∃ k t, item.items? = some [.text k, .text t] ∧ q = p.push k t := by
  constructor
  · intro h
    obtain ⟨⟨key, value⟩, hpair, hadd⟩ := exists_of_bind_eq_ok h
    obtain ⟨k, t, rfl, rfl, rfl⟩ := add_eq_ok_iff.1 hadd
    exact ⟨k, t, Value.pair_eq_ok_iff.1 hpair, rfl⟩
  · rintro ⟨k, t, hitems, rfl⟩
    unfold addItem
    rw [Value.pair_eq_ok_iff.2 hitems]
    rfl

theorem foldlM_addItem_eq_ok_iff {items : List Value} : items.foldlM addItem p = .ok q ↔
    ∃ ps, List.Forall₂ (fun item e => item.items? = some [.text e.1, .text e.2]) items ps ∧
      q.entries = p.entries ++ ps := by
  induction items generalizing p with
  | nil =>
      rw [List.foldlM_nil]
      constructor
      · intro h
        cases h
        exact ⟨[], .nil, (List.append_nil _).symm⟩
      · rintro ⟨ps, hps, hentries⟩
        cases hps
        rw [List.append_nil] at hentries
        cases p
        cases q
        cases hentries
        rfl
  | cons item items ih =>
      rw [List.foldlM_cons]
      constructor
      · intro h
        obtain ⟨p₁, hitem, hitems⟩ := exists_of_bind_eq_ok h
        obtain ⟨k, t, hpair, rfl⟩ := addItem_eq_ok_iff.1 hitem
        obtain ⟨ps, hps, hentries⟩ := ih.1 hitems
        refine ⟨(k, t) :: ps, .cons hpair hps, ?_⟩
        rw [hentries]
        exact List.append_assoc _ _ _
      · rintro ⟨ps, hps, hentries⟩
        cases hps with
        | @cons _ e _ ps hpair hps =>
            rw [addItem_eq_ok_iff.2 ⟨e.1, e.2, hpair, rfl⟩]
            refine ih.2 ⟨ps, hps, ?_⟩
            rw [hentries]
            exact (List.append_assoc p.entries [e] ps).symm

/-- A pair list is filled with all the pairs that a value stands for, or not at all. -/
theorem ofValue_eq_ok_iff {v : Value} : ofValue v = .ok p ↔ v.StandsFor p.entries := by
  unfold ofValue Value.StandsFor
  split
  · change (do (← v.collection).foldlM addItem empty) = .ok p ↔ _
    constructor
    · intro h
      obtain ⟨items, hitems, hfold⟩ := exists_of_bind_eq_ok h
      obtain ⟨ps, hps, hentries⟩ := foldlM_addItem_eq_ok_iff.1 hfold
      have hentries : p.entries = ps := hentries
      rw [hentries]
      exact ⟨items, Value.collection_eq_ok_iff.1 hitems, hps⟩
    · rintro ⟨items, hitems, hps⟩
      rw [Value.collection_eq_ok_iff.2 hitems]
      exact foldlM_addItem_eq_ok_iff.2 ⟨p.entries, hps, rfl⟩
  · constructor
    · intro h
      cases h
      rfl
    · intro h
      cases p
      cases h
      rfl

theorem entries_use (p : PairList) {u : Use} (h : u ≠ .clear) :
    (p.use u).2.entries = p.entries ++ u.pair?.toList := by
  cases u with
  | add key value =>
      cases hadd : p.add key value with
      | ok q =>
          obtain ⟨k, t, rfl, rfl, rfl⟩ := add_eq_ok_iff.1 hadd
          rfl
      | error fault =>
          have hpair : (Use.add key value).pair? = none := by
            unfold Use.pair?
            split
            · rename_i heq
              cases heq
              cases hadd
            · rfl
          simp only [use, hadd, hpair, Option.toList_none, List.append_nil]
  | clear => exact absurd rfl h
  | _ => exact (List.append_nil _).symm

/-- Until it is cleared, a pair list keeps what it holds and gets what is added, in order. -/
theorem entries_useAll (p : PairList) {uses : List Use} (h : .clear ∉ uses) :
    (p.useAll uses).entries = p.entries ++ uses.filterMap Use.pair? := by
  induction uses generalizing p with
  | nil => exact (List.append_nil _).symm
  | cons u uses ih =>
      obtain ⟨hu, huses⟩ := not_or.1 (mt List.mem_cons.2 h)
      have hrest : (p.useAll (u :: uses)).entries =
          (p.use u).2.entries ++ uses.filterMap Use.pair? := ih (p.use u).2 huses
      rw [hrest, entries_use p (Ne.symm hu), List.append_assoc, List.filterMap_cons]
      cases u.pair? <;> rfl

theorem entries_useAll_clear (p : PairList) (before : List Use) {after : List Use}
    (h : .clear ∉ after) :
    (p.useAll (before ++ .clear :: after)).entries = after.filterMap Use.pair? := by
  have hrun : p.useAll (before ++ .clear :: after) = empty.useAll after := by
    unfold useAll
    rw [List.foldl_append, List.foldl_cons]
    rfl
  rw [hrun, entries_useAll empty h]
  rfl

theorem get?_of_first {before after : List (String × String)} {k t : String}
    (hentries : p.entries = before ++ (k, t) :: after) (hfirst : k ∉ before.map (·.1)) :
    p.get? k = some t := by
  have hnone : before.find? (·.1 == k) = none := by
    rw [List.find?_eq_none]
    intro e he hkey
    exact hfirst (List.mem_map.2 ⟨e, he, beq_iff_eq.1 hkey⟩)
  unfold get?
  have hfound : ((k, t) :: after).find? (·.1 == k) = some (k, t) :=
    List.find?_cons_of_pos (beq_self_eq_true k)
  rw [hentries, List.find?_append, hnone, Option.none_or, hfound]
  rfl

theorem get?_eq_none {k : String} (h : k ∉ p.keys) : p.get? k = none := by
  unfold get?
  rw [Option.map_eq_none_iff, List.find?_eq_none]
  intro e he hkey
  exact h (List.mem_map.2 ⟨e, he, beq_iff_eq.1 hkey⟩)

theorem exists_get?_of_mem {k : String} (h : k ∈ p.keys) : ∃ t, p.get? k = some t := by
  obtain ⟨e, he, rfl⟩ := List.mem_map.1 h
  unfold get?
  cases hfind : p.entries.find? (·.1 == e.1) with
  | none => exact absurd (beq_self_eq_true e.1) (List.find?_eq_none.1 hfind e he)
  | some found => exact ⟨found.2, rfl⟩

/-- A key that is present keeps its first value until the pair list is cleared. -/
theorem get?_useAll {k : String} (hkey : k ∈ p.keys) {uses : List Use} (h : .clear ∉ uses) :
    (p.useAll uses).get? k = p.get? k := by
  obtain ⟨t, ht⟩ := exists_get?_of_mem hkey
  rw [ht]
  unfold get? at ht ⊢
  rw [entries_useAll p h, List.find?_append]
  cases hfind : p.entries.find? (·.1 == k) with
  | none =>
      rw [hfind] at ht
      cases ht
  | some e =>
      rw [hfind] at ht
      exact ht

theorem find_of_absent {key : Value} (fallback : Value)
    (h : ∀ k, key = .text k → k ∉ p.keys) : p.find key fallback = fallback := by
  cases key with
  | text k =>
      change ((p.get? k).map Value.text).getD fallback = fallback
      rw [get?_eq_none (h k rfl)]
      rfl
  | _ => rfl

end PairList

namespace Write

variable {σ : Type} [Sink σ] {s s' s₁ : Session σ}

theorem stringPairs_pairs (p : PairList) :
    (stringPairs (.pairs p) : Write σ Unit) = emit false (.pairs p) :=
  stringPairs_eq_emit (pairsOf_pairs p)

theorem start_of_stringPairs {p : PairList} (h : stringPairs (.pairs p) s = .ok () s') :
    ∃ s₁, start .object s = .ok () s₁ := by
  rw [stringPairs_eq (pairsOf_pairs p)] at h
  obtain ⟨_, s₁, hstart, -⟩ := bind_eq_ok h
  exact ⟨s₁, hstart⟩

/-- The object that is written of a pair list has its pairs for members. -/
theorem reads_of_stringPairs {p : PairList} (h : stringPairs (.pairs p) s = .ok () s') :
    ∃ (sep : Separator) (st : Stack) (text : List Char), s.stack.value = .ok (sep, st) ∧
      s.Grows st (sep.text.toList ++ text) s' ∧
      Json.read? text = some (.object (p.entries.map fun e => (e.1, .string e.2))) := by
  rw [stringPairs_pairs] at h
  obtain ⟨sep, st, hvalue, -, hgrows⟩ := grows_of_emit h
  refine ⟨sep, st, _, hvalue, hgrows, ?_⟩
  have hdenotes := (Value.pairs p).denotes_jsonText s.settings.floatPrecision false
  rw [Value.normal] at hdenotes
  exact Json.read?_eq_some_iff.2 hdenotes.spaced

end Write

/-- A pair list is filled whole or not at all. After any uses it holds, in order and with repeated
keys, what it was filled with and what was added since it was last cleared; an add of what are no
two texts fails and changes nothing, a key finds its first value, and the object that is written of
the pair list has its pairs for members. -/
theorem PairList.ordered_multimap (v : Value) (start : PairList) (uses : List Use) :
    (ofValue v = .ok start ↔ v.StandsFor start.entries) ∧
      let p := start.useAll uses
      (.clear ∉ uses → p.entries = start.entries ++ uses.filterMap Use.pair?) ∧
      (∀ before after, uses = before ++ .clear :: after → .clear ∉ after →
        p.entries = after.filterMap Use.pair?) ∧
      (∀ key value : Value,
        (key.kind ≠ .text → p.use (.add key value) = (.error (.type (.pairKey key.kind)), p)) ∧
        (key.kind = .text → value.kind ≠ .text →
          p.use (.add key value) = (.error (.type (.pairValue value.kind)), p))) ∧
      (∀ k t, p.use (.add (.text k) (.text t)) = (.ok .nothing, ⟨p.entries ++ [(k, t)]⟩)) ∧
      (∀ fallback k t before after, p.entries = before ++ (k, t) :: after →
        k ∉ before.map (·.1) → p.use (.get (.text k) fallback) = (.ok (.value (.text t)), p)) ∧
      (∀ fallback key, (∀ k, key = .text k → k ∉ p.entries.map (·.1)) →
        p.use (.get key fallback) = (.ok (.value fallback), p)) ∧
      (∀ fallback k later, k ∈ p.entries.map (·.1) → .clear ∉ later →
        ((p.useAll later).use (.get (.text k) fallback)).1 =
          (p.use (.get (.text k) fallback)).1) ∧
      p.use .keys = (.ok (.keys (p.entries.map (·.1))), p) ∧
      p.use .length = (.ok (.length p.entries.length), p) ∧
      p.use .pairs = (.ok (.pairs p.entries), p) ∧
      ∀ (σ : Type) [Sink σ] (s : Session σ),
        ((∃ s', (Call.stringPairs (.pairs p)).run s = .ok () s') ↔
          ∃ s', (Call.start .object).run s = .ok () s') ∧
        ∀ s', (Call.stringPairs (.pairs p)).run s = .ok () s' →
          ∃ (sep : Separator) (st : Stack) (text : List Char), s.stack.value = .ok (sep, st) ∧
            s'.stack = st ∧ s'.text = s.text ++ (sep.text.toList ++ text) ∧
            Json.read? text = some (.object (p.entries.map fun e => (e.1, .string e.2))) := by
  refine ⟨ofValue_eq_ok_iff, ?_⟩
  intro p
  refine ⟨entries_useAll start, ?_, ?_, fun _ _ => rfl, ?_, ?_, ?_, rfl, rfl, rfl, ?_⟩
  · rintro before after rfl hafter
    exact entries_useAll_clear start before hafter
  · intro key value
    constructor
    · intro hkey
      simp only [use, add_of_key value hkey]
    · intro hkey hvalue
      obtain ⟨k, rfl⟩ := Value.exists_of_kind_eq_text hkey
      simp only [use, add_of_value k hvalue]
  · intro fallback k t before after hentries hfirst
    simp only [use, find, get?_of_first hentries hfirst, Option.map_some, Option.getD_some]
  · intro fallback key habsent
    simp only [use, find_of_absent fallback habsent]
  · intro fallback k later hkey hlater
    simp only [use, find, get?_useAll hkey hlater]
  · intro σ _ s
    refine ⟨⟨fun ⟨_, h⟩ => Write.start_of_stringPairs h, ?_⟩, ?_⟩
    · rintro ⟨s₁, hstart⟩
      change ∃ s', Write.stringPairs (.pairs _) s = .ok () s'
      rw [Write.stringPairs_pairs]
      exact Write.emit_pairs_ok_of_start _ hstart
    · intro s' h
      obtain ⟨sep, st, text, hvalue, hgrows, hread⟩ := Write.reads_of_stringPairs h
      exact ⟨sep, st, text, hvalue, hgrows.stack, hgrows.text, hread⟩

/-- Two pairs with one key, then an add that is refused between two that are not, then a clear. -/
theorem PairList.ordered_multimap_repeated_key :
    let start : PairList := ⟨[("k", "1"), ("k", "2")]⟩
    let uses : List Use :=
      [.add (.text "a") (.text "3"), .add .null (.int 0), .add (.text "k") (.text "4")]
    ofValue (.list [.tuple [.text "k", .text "1"], .text "k2"]) = .ok start ∧
    (start.useAll uses).entries = [("k", "1"), ("k", "2"), ("a", "3"), ("k", "4")] ∧
    (start.useAll (uses ++ [.clear, .add (.text "b") (.text "5")])).entries = [("b", "5")] ∧
    ((start.useAll uses).use (.add .null (.int 0))).1 = .error (.type (.pairKey .null)) ∧
    ((start.useAll uses).use (.add (.text "k") (.int 0))).1 = .error (.type (.pairValue .int)) ∧
    ((start.useAll uses).use (.get (.text "k") .null)).1 = .ok (.value (.text "1")) ∧
    ((start.useAll uses).use (.get (.text "b") .null)).1 = .ok (.value .null) ∧
    (((start.useAll uses).useAll [.add (.text "a") (.text "6")]).use (.get (.text "a") .null)).1 =
      .ok (.value (.text "3")) ∧
    ∃ (s : Session TextBuffer) (text : List Char),
      (Call.stringPairs (.pairs (start.useAll uses))).run (Session.start .default {}) = .ok () s ∧
      s.text = text ∧ Json.read? text =
        some (.object [("k", .string "1"), ("k", .string "2"), ("a", .string "3"),
          ("k", .string "4")]) := by
  intro start uses
  have hstart : Value.StandsFor (.list [.tuple [.text "k", .text "1"], .text "k2"])
      start.entries := ⟨_, rfl, .cons rfl (.cons rfl .nil)⟩
  obtain ⟨hfilled, hp⟩ :=
    ordered_multimap (.list [.tuple [.text "k", .text "1"], .text "k2"]) start uses
  obtain ⟨hkept, -, hrefused, -, hfirst, habsent, hlater, -, -, -, hwritten⟩ := hp
  obtain ⟨-, hp'⟩ := ordered_multimap (.list [.tuple [.text "k", .text "1"], .text "k2"]) start
    (uses ++ [.clear, .add (.text "b") (.text "5")])
  obtain ⟨-, hcleared, -⟩ := hp'
  have hentries : (start.useAll uses).entries =
      [("k", "1"), ("k", "2"), ("a", "3"), ("k", "4")] := hkept (by simp [uses])
  refine ⟨hfilled.2 hstart, hentries, hcleared uses _ rfl (by simp), ?_, ?_, ?_, ?_, ?_, ?_⟩
  · rw [(hrefused .null (.int 0)).1 nofun]
    rfl
  · rw [(hrefused (.text "k") (.int 0)).2 rfl nofun]
    rfl
  · rw [hfirst .null "k" "1" [] _ hentries (by simp)]
  · rw [habsent .null (.text "b") (by rintro _ ⟨⟩; rw [hentries]; simp)]
  · rw [hlater .null "a" _ (by rw [hentries]; simp) (by simp),
      hfirst .null "a" "3" [("k", "1"), ("k", "2")] _ hentries (by simp)]
  · obtain ⟨haccepted, hread⟩ := hwritten TextBuffer (Session.start .default {})
    obtain ⟨s, hs⟩ := haccepted.2 ⟨_, rfl⟩
    obtain ⟨sep, st, text, hvalue, -, htext, htexts⟩ := hread s hs
    cases hvalue
    rw [hentries] at htexts
    exact ⟨s, text, hs, htext, htexts⟩

end JsonWriter
