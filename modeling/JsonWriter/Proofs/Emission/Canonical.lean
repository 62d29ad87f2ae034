import JsonWriter.Proofs.Emission.Position

/-! Sorted members. Where they are sorted, the order in which the members of a mapping were put in
does not show, and the text is that of the value with its members in the order of their keys. -/
namespace JsonWriter

namespace Value

/-- Two values differ at most in the order of the members of mappings, at any depth. Each row holds
a key and the two values that it has. -/
inductive Reordered : Value → Value → Prop
  | refl (v : Value) : Reordered v v
  | list (rows : List (Value × Value)) : (∀ r ∈ rows, Reordered r.1 r.2) →
      Reordered (list (rows.map (·.1))) (list (rows.map (·.2)))
  | tuple (rows : List (Value × Value)) : (∀ r ∈ rows, Reordered r.1 r.2) →
      Reordered (tuple (rows.map (·.1))) (tuple (rows.map (·.2)))
  | mapping {entries others : List (Value × Value)} (rows : List (Value × Value × Value)) :
      (∀ r ∈ rows, Reordered r.2.1 r.2.2) →
      entries.Perm (rows.map fun r => (r.1, r.2.1)) →
      others.Perm (rows.map fun r => (r.1, r.2.2)) →
      Reordered (mapping entries) (mapping others)

/-- What holds of the text keys of every mapping in a value, taken in their order. -/
def EachMapping (P : List String → Prop) : Value → Prop
  | list items | tuple items => ∀ v ∈ items, EachMapping P v
  | mapping entries => P ((named entries).map (·.1)) ∧ ∀ e ∈ entries, EachMapping P e.2
  | null | bool _ | int _ | float _ | text _ | set _ | pairs _ | bytes _ | unknown | path _
  | settings _ => True
termination_by v => sizeOf v
decreasing_by
  · exact sizeOf_lt_of_mem_parts false (v := list items) ‹_›
  · exact sizeOf_lt_of_mem_parts false (v := tuple items) ‹_›
  · exact sizeOf_lt_of_mem_entries ‹_›

/-- No mapping in a value has a key twice. -/
def DistinctKeys (v : Value) : Prop := v.EachMapping List.Nodup

/-- Every mapping in a value has its keys in increasing order. -/
def IncreasingKeys (v : Value) : Prop := v.EachMapping (List.Pairwise (· < ·))

/-- Entries in the order of their keys. Those under other keys than texts come last, as they
stand. -/
def sortEntries (entries : List (Value × Value)) : List (Value × Value) :=
  (members true entries).map (fun m => (text m.1, m.2)) ++ entries.filter (·.1.kind ≠ .text)

/-- A value with its members in the order of their keys, at every depth. -/
def sorted : Value → Value
  | list items => list (items.map fun v => sorted v)
  | tuple items => tuple (items.map fun v => sorted v)
  | mapping entries => mapping (sortEntries (entries.map fun e => (e.1, sorted e.2)))
  | v => v
termination_by v => sizeOf v
decreasing_by
  · exact sizeOf_lt_of_mem_parts false (v := list items) ‹_›
  · exact sizeOf_lt_of_mem_parts false (v := tuple items) ‹_›
  · exact sizeOf_lt_of_mem_entries ‹_›

section Entries

variable {entries others : List (Value × Value)}

theorem named_texts (ms : List (String × Value)) :
    named (ms.map fun m => (text m.1, m.2)) = ms := by
  induction ms with
  | nil => rfl
  | cons m ms ih => exact congrArg (m :: ·) ih

theorem named_filter (entries : List (Value × Value)) :
    named (entries.filter (·.1.kind ≠ .text)) = [] := by
  unfold named
  rw [List.filterMap_eq_nil_iff]
  intro e he
  obtain ⟨k, v⟩ := e
  have hkind := (List.mem_filter.1 he).2
  cases k with
  | text k => simp [kind] at hkind
  | _ => rfl

theorem perm_named (entries : List (Value × Value)) :
    ((named entries).map (fun m => (text m.1, m.2)) ++
      entries.filter (·.1.kind ≠ .text)).Perm entries := by
  induction entries with
  | nil => exact .refl _
  | cons e entries ih =>
      obtain ⟨k, v⟩ := e
      cases k with
      | text k => exact ih.cons (text k, v)
      | _ => exact List.perm_middle.trans (ih.cons _)

theorem named_sortEntries (entries : List (Value × Value)) :
    named (sortEntries entries) = members true entries := by
  have happend : named (sortEntries entries) =
      named ((members true entries).map fun m => (text m.1, m.2)) ++
        named (entries.filter (·.1.kind ≠ .text)) := List.filterMap_append
  rw [happend, named_texts, named_filter, List.append_nil]

theorem perm_sortEntries (entries : List (Value × Value)) :
    (sortEntries entries).Perm entries :=
  (((members_perm true entries).map _).append_right _).trans (perm_named entries)

theorem nonTextKey?_sortEntries (entries : List (Value × Value)) :
    Write.nonTextKey? (sortEntries entries) = Write.nonTextKey? entries := by
  have htexts : ((members true entries).map fun m => (text m.1, m.2)).find?
      (·.1.kind ≠ .text) = none := by
    simp [kind]
  rw [nonTextKey?_eq, nonTextKey?_eq, sortEntries, List.find?_append, htexts, Option.none_or,
    List.find?_filter]
  simp

theorem nonTextKey?_map (entries : List (Value × Value)) (f : Value → Value) :
    Write.nonTextKey? (entries.map fun e => (e.1, f e.2)) = Write.nonTextKey? entries := by
  rw [nonTextKey?_eq, nonTextKey?_eq, List.find?_map, Option.map_map]
  rfl

theorem members_eq_of_perm (h : entries.Perm others)
    (hnodup : ((named entries).map (·.1)).Nodup) : members true entries = members true others := by
  have hnamed : (named entries).Perm (named others) := h.filterMap _
  have hperm : (members true entries).Perm (members true others) :=
    (members_perm true entries).trans (hnamed.trans (members_perm true others).symm)
  have hdistinct : ((members true entries).map (·.1)).Nodup :=
    ((members_perm true entries).map _).nodup_iff.2 hnodup
  refine hperm.eq_of_pairwise ?_ (pairwise_members entries) (pairwise_members others)
  intro m n hm hn hle hge
  exact List.inj_on_of_nodup_map hdistinct hm (hperm.mem_iff.2 hn) (le_antisymm hle hge)

/-- Of entries under distinct texts the sorted order does not depend on the order that they had. -/
theorem sortEntries_eq_of_perm (h : entries.Perm others)
    (htexts : ∀ e ∈ entries, e.1.kind = .text) (hnodup : ((named entries).map (·.1)).Nodup) :
    sortEntries entries = sortEntries others := by
  have hfilter : ∀ es : List (Value × Value), (∀ e ∈ es, e.1.kind = .text) →
      es.filter (·.1.kind ≠ .text) = [] := by
    intro es hes
    rw [List.filter_eq_nil_iff]
    intro e he
    simp [hes e he]
  have hothers : ∀ e ∈ others, e.1.kind = .text := fun e he => htexts e (h.mem_iff.2 he)
  unfold sortEntries
  rw [members_eq_of_perm h hnodup, hfilter entries htexts, hfilter others hothers]

end Entries

theorem map_rows {α : Type} {rows : List (Value × Value)} {f : Value → α}
    (h : ∀ r ∈ rows, f r.1 = f r.2) : (rows.map (·.1)).map f = (rows.map (·.2)).map f := by
  rw [List.map_map, List.map_map]
  exact List.map_congr_left h

theorem writable_list_iff {items : List Value} :
    (list items).Writable ↔ ∀ v ∈ items, v.Writable := ⟨fun | .list h => h, .list⟩

theorem writable_tuple_iff {items : List Value} :
    (tuple items).Writable ↔ ∀ v ∈ items, v.Writable := ⟨fun | .tuple h => h, .tuple⟩

theorem writable_mapping_iff {entries : List (Value × Value)} :
    (mapping entries).Writable ↔ ∀ e ∈ entries, e.1.kind = .text ∧ e.2.Writable := by
  constructor
  · intro h e he
    cases h with
    | mapping htexts hvalues => exact ⟨htexts e he, hvalues e he⟩
  · intro h
    exact .mapping (fun e he => (h e he).1) fun e he => (h e he).2

/-- Whether all of a value has a JSON form does not depend on the order of members. -/
theorem Reordered.writable {v w : Value} (h : v.Reordered w) : v.Writable ↔ w.Writable := by
  induction h with
  | refl v => exact Iff.rfl
  | list rows _ ih =>
      rw [writable_list_iff, writable_list_iff, List.forall_mem_map, List.forall_mem_map]
      exact forall₂_congr ih
  | tuple rows _ ih =>
      rw [writable_tuple_iff, writable_tuple_iff, List.forall_mem_map, List.forall_mem_map]
      exact forall₂_congr ih
  | mapping rows _ hentries hothers ih =>
      simp only [writable_mapping_iff, hentries.mem_iff, hothers.mem_iff, List.forall_mem_map]
      exact forall₂_congr fun r hr => and_congr_right' (ih r hr)

/-- A value whose members are only in another order is the same value once they are sorted. -/
theorem Reordered.sorted_eq {v w : Value} (h : v.Reordered w) (hwritable : v.Writable)
    (hdistinct : v.DistinctKeys) : v.sorted = w.sorted := by
  unfold DistinctKeys at hdistinct
  induction h with
  | refl v => rfl
  | list rows _ ih =>
      rw [EachMapping, List.forall_mem_map] at hdistinct
      rw [writable_list_iff, List.forall_mem_map] at hwritable
      rw [sorted, sorted, map_rows fun r hr => ih r hr (hwritable r hr) (hdistinct r hr)]
  | tuple rows _ ih =>
      rw [EachMapping, List.forall_mem_map] at hdistinct
      rw [writable_tuple_iff, List.forall_mem_map] at hwritable
      rw [sorted, sorted, map_rows fun r hr => ih r hr (hwritable r hr) (hdistinct r hr)]
  | @mapping entries others rows _ hentries hothers ih =>
      rw [EachMapping] at hdistinct
      rw [writable_mapping_iff] at hwritable
      have hrows : ∀ r ∈ rows, (r.1, r.2.1.sorted) = (r.1, r.2.2.sorted) := by
        intro r hr
        have he : (r.1, r.2.1) ∈ entries := hentries.mem_iff.2 (List.mem_map_of_mem hr)
        rw [ih r hr (hwritable _ he).2 (hdistinct.2 _ he)]
      have hperm : (entries.map fun e => (e.1, e.2.sorted)).Perm
          (others.map fun e => (e.1, e.2.sorted)) := by
        have hleft := hentries.map fun e : Value × Value => (e.1, e.2.sorted)
        have hright := hothers.map fun e : Value × Value => (e.1, e.2.sorted)
        rw [List.map_map] at hleft hright
        have hmiddle := List.map_congr_left hrows
        exact hleft.trans (.trans (.of_eq hmiddle) hright.symm)
      rw [sorted, sorted, sortEntries_eq_of_perm hperm]
      · rw [List.forall_mem_map]
        exact fun e he => (hwritable e he).1
      · rw [named_map, List.map_map]
        exact hdistinct.1

theorem Reordered.list_map {items : List Value} {f : Value → Value}
    (h : ∀ v ∈ items, v.Reordered (f v)) : Reordered (.list items) (.list (items.map f)) := by
  have hrows := Reordered.list (items.map fun v => (v, f v)) (List.forall_mem_map.2 h)
  have hitems : items.map ((·.1) ∘ fun v => (v, f v)) = items := List.map_id items
  rwa [List.map_map, List.map_map, hitems] at hrows

theorem Reordered.tuple_map {items : List Value} {f : Value → Value}
    (h : ∀ v ∈ items, v.Reordered (f v)) : Reordered (.tuple items) (.tuple (items.map f)) := by
  have hrows := Reordered.tuple (items.map fun v => (v, f v)) (List.forall_mem_map.2 h)
  have hitems : items.map ((·.1) ∘ fun v => (v, f v)) = items := List.map_id items
  rwa [List.map_map, List.map_map, hitems] at hrows

theorem Reordered.mapping_map {entries others : List (Value × Value)} {f : Value → Value}
    (h : ∀ e ∈ entries, e.2.Reordered (f e.2))
    (hothers : others.Perm (entries.map fun e => (e.1, f e.2))) :
    Reordered (.mapping entries) (.mapping others) := by
  refine .mapping (entries.map fun e => (e.1, e.2, f e.2)) (List.forall_mem_map.2 h) ?_ ?_
  · rw [List.map_map]
    exact .of_eq (List.map_id entries).symm
  · rw [List.map_map]
    exact hothers

theorem reordered_sorted (v : Value) : v.Reordered v.sorted := by
  match v with
  | list items =>
      rw [sorted]
      exact .list_map fun v _ => reordered_sorted v
  | tuple items =>
      rw [sorted]
      exact .tuple_map fun v _ => reordered_sorted v
  | mapping entries =>
      rw [sorted]
      exact .mapping_map (fun e _ => reordered_sorted e.2) (perm_sortEntries _)
  | null | bool _ | int _ | float _ | text _ | set _ | pairs _ | bytes _ | unknown | path _
  | settings _ =>
      simp only [sorted]
      exact .refl _
termination_by sizeOf v
decreasing_by
  · exact sizeOf_lt_of_mem_parts false (v := list items) ‹_›
  · exact sizeOf_lt_of_mem_parts false (v := tuple items) ‹_›
  · exact sizeOf_lt_of_mem_entries ‹_›

theorem pairwise_lt_members {entries : List (Value × Value)}
    (h : ((named entries).map (·.1)).Nodup) :
    ((members true entries).map (·.1)).Pairwise (· < ·) := by
  have hdistinct : ((members true entries).map (·.1)).Pairwise (· ≠ ·) :=
    ((members_perm true entries).map _).nodup_iff.2 h
  have hsorted : ((members true entries).map (·.1)).Pairwise (· ≤ ·) :=
    List.pairwise_map.2 (pairwise_members entries)
  exact (hsorted.and hdistinct).imp fun h => lt_of_le_of_ne h.1 h.2

/-- The keys of a sorted value are in increasing order, if no mapping had a key twice. -/
theorem increasingKeys_sorted (v : Value) (h : v.DistinctKeys) : v.sorted.IncreasingKeys := by
  unfold DistinctKeys at h
  unfold IncreasingKeys
  match v with
  | list items =>
      rw [EachMapping] at h
      rw [sorted, EachMapping, List.forall_mem_map]
      exact fun v hv => increasingKeys_sorted v (h v hv)
  | tuple items =>
      rw [EachMapping] at h
      rw [sorted, EachMapping, List.forall_mem_map]
      exact fun v hv => increasingKeys_sorted v (h v hv)
  | mapping entries =>
      rw [EachMapping] at h
      rw [sorted, EachMapping, named_sortEntries]
      constructor
      · refine pairwise_lt_members ?_
        rw [named_map, List.map_map]
        exact h.1
      · intro e he
        have hmem := (perm_sortEntries _).mem_iff.1 he
        obtain ⟨e', he', rfl⟩ := List.mem_map.1 hmem
        exact increasingKeys_sorted e'.2 (h.2 e' he')
  | null | bool _ | int _ | float _ | text _ | set _ | pairs _ | bytes _ | unknown | path _
  | settings _ =>
      simp only [sorted]
      rw [EachMapping]
      trivial
termination_by sizeOf v
decreasing_by
  · exact sizeOf_lt_of_mem_parts false (v := list items) ‹_›
  · exact sizeOf_lt_of_mem_parts false (v := tuple items) ‹_›
  · exact sizeOf_lt_of_mem_entries ‹_›

end Value

namespace Write

variable {σ : Type} [Sink σ]

theorem emit_sorted (v : Value) : (emit true v : Write σ Unit) = emit false v.sorted := by
  induction v using Value.inductionOnParts true with
  | step v ih =>
      cases v with
      | list items =>
          rw [Value.sorted, emit_list, emit_list, forM_map, forM_congr items ih]
      | tuple items =>
          rw [Value.sorted, emit_tuple, emit_tuple, forM_map, forM_congr items ih]
      | mapping entries =>
          rw [Value.sorted]
          have hkeys : nonTextKey? (Value.sortEntries
              (entries.map fun e => (e.1, e.2.sorted))) = nonTextKey? entries := by
            rw [Value.nonTextKey?_sortEntries, Value.nonTextKey?_map]
          cases hkey : nonTextKey? entries with
          | some kind =>
              rw [emit_mapping_of_key true hkey, emit_mapping_of_key false (hkeys.trans hkey)]
          | none =>
              have hmembers : Value.members false (Value.sortEntries
                  (entries.map fun e => (e.1, e.2.sorted))) =
                  (Value.members true entries).map fun m => (m.1, m.2.sorted) := by
                rw [← Value.members_map]
                exact Value.named_sortEntries _
              have hwritten : ∀ m ∈ Value.members true entries,
                  (emitMember true m : Write σ Unit) = emitMember false (m.1, m.2.sorted) := by
                intro m hm
                unfold emitMember
                rw [ih m.2 (List.mem_map_of_mem hm)]
              rw [emit_mapping true hkey, emit_mapping false (hkeys.trans hkey), hmembers,
                forM_map, forM_congr _ hwritten]
      | pairs p =>
          simp only [Value.sorted]
          rw [emit, emit]
      | null | bool _ | int _ | float _ | text _ | set _ | bytes _ | unknown | path _
      | settings _ =>
          simp only [Value.sorted]
          rfl

end Write

namespace Request

variable {v : Value} {source : Value} {sortKeys : Bool} {w : Workspace}

theorem render_ok_iff : (∃ text w', render v source sortKeys w = .ok text w') ↔
    ∃ c w₁, Settings.resolve source Settings.roundTrip w = .ok c w₁ ∧
      v.Writable ∧ v.Fits c.limit 0 := by
  cases hsource : Settings.resolve source Settings.roundTrip w with
  | error fault w₁ =>
      have hrender : render v source sortKeys w = .error fault w₁ := bind_error hsource
      rw [hrender]
      exact ⟨nofun, nofun⟩
  | ok c w₁ =>
      rw [render_of_resolve hsource]
      constructor
      · rintro ⟨text, w', hrender⟩
        cases hfault : v.fault? c.limit sortKeys 0 with
        | none => exact ⟨c, w₁, rfl, (Value.fault?_eq_none_iff v 0).1 hfault⟩
        | some fault =>
            rw [render_of_fault?_eq_some hfault] at hrender
            cases hrender
      · rintro ⟨c', w', heq, hfits⟩
        cases heq
        have hnone : v.fault? c.limit sortKeys 0 = none := (Value.fault?_eq_none_iff v 0).2 hfits
        obtain ⟨text, hrender, -⟩ := render_of_fault?_eq_none (w := w₁) hnone
        exact ⟨text, w₁, hrender⟩

theorem render_sorted (v source : Value) : render v source true = render v.sorted source false := by
  unfold render
  rw [Write.emit_sorted]

theorem render_eq_of_reordered {v' : Value} (h : v.Reordered v') (hdistinct : v.DistinctKeys)
    (text : String) (w' : Workspace) :
    render v source true w = .ok text w' ↔ render v' source true w = .ok text w' := by
  by_cases hwritable : v.Writable
  · rw [render_sorted, render_sorted, h.sorted_eq hwritable hdistinct]
  · constructor
    · intro hrender
      obtain ⟨_, _, _, hv, _⟩ := render_ok_iff.1 ⟨text, w', hrender⟩
      exact absurd hv hwritable
    · intro hrender
      obtain ⟨_, _, _, hv, _⟩ := render_ok_iff.1 ⟨text, w', hrender⟩
      exact absurd (h.writable.2 hv) hwritable

/-- Sorting the keys changes nothing about which values have a text. The text is that of the value
with its members in the increasing order of their keys, and it is the same for all values that
differ only in the order of members. -/
theorem render_canonical {v : Value} (hdistinct : v.DistinctKeys) (source : Value)
    (w : Workspace) :
    ((∃ text w', render v source true w = .ok text w') ↔
      ∃ text w', render v source false w = .ok text w') ∧
    (v.Reordered v.sorted ∧ v.sorted.IncreasingKeys ∧
      render v source true w = render v.sorted source false w) ∧
    ∀ v', v.Reordered v' → ∀ text w',
      render v source true w = .ok text w' ↔ render v' source true w = .ok text w' := by
  refine ⟨?_, ⟨v.reordered_sorted, v.increasingKeys_sorted hdistinct, ?_⟩, ?_⟩
  · rw [render_ok_iff, render_ok_iff]
  · rw [render_sorted]
  · exact fun v' h => render_eq_of_reordered h hdistinct

/-- Members in another order, also inside an array, give the same text. -/
theorem render_canonical_nested :
    let inner := [(Value.text "d", Value.int 1), (.text "c", .null)]
    let inner' := [(Value.text "c", Value.null), (.text "d", .int 1)]
    let v := Value.mapping [(.text "b", .list [.mapping inner]), (.text "a", .bool true)]
    let v' := Value.mapping [(.text "a", .bool true), (.text "b", .list [.mapping inner'])]
    let w : Workspace := { files := .empty }
    v.DistinctKeys ∧ v.Reordered v' ∧ ∃ text w', render v .null true w = .ok text w' ∧
      render v' .null true w = .ok text w' := by
  intro inner inner' v v' w
  have hdistinct : v.DistinctKeys := by
    simp [v, inner, Value.DistinctKeys, Value.EachMapping, Value.named]
  have hinner : (Value.mapping inner).Reordered (.mapping inner') :=
    .mapping [(.text "d", .int 1, .int 1), (.text "c", .null, .null)]
      (by simp [Value.Reordered.refl]) (.refl _) (.swap _ _ _)
  have hlist : (Value.list [.mapping inner]).Reordered (.list [.mapping inner']) :=
    .list [(.mapping inner, .mapping inner')] (by simpa using hinner)
  have hreordered : v.Reordered v' :=
    .mapping [(.text "b", .list [.mapping inner], .list [.mapping inner']),
      (.text "a", .bool true, .bool true)] (by simp [Value.Reordered.refl, hlist]) (.refl _)
      (.swap _ _ _)
  have hwritable : v.Writable := by
    have hint : (Value.int 1).Writable := .int (by decide)
    simp [v, inner, Value.writable_mapping_iff, Value.writable_list_iff, Value.kind, hint,
      Value.Writable.null, Value.Writable.bool]
  obtain ⟨text, w', hrender⟩ : ∃ text w', render v .null true w = .ok text w' :=
    render_ok_iff.2 ⟨Settings.roundTrip, w, rfl, hwritable, fun _ hn => by cases hn⟩
  have hsame := (render_canonical hdistinct .null w).2.2 v' hreordered text w'
  exact ⟨hdistinct, hreordered, text, w', hrender, hsame.1 hrender⟩

end Request
end JsonWriter
