import JsonWriter.Proofs.Emission.Document
import JsonWriter.Proofs.Session.Meaning

/-! Values written anywhere in a document. The place decides only over the separator and over the
room that the limit leaves; what is written of a value is the same everywhere. -/
namespace JsonWriter

namespace Value

/-- How many containers stand in one another in a value, the value itself counted. -/
def depth : Value → Nat
  | list items | tuple items => (items.map fun v => depth v).foldr max 0 + 1
  | mapping entries => (entries.map fun e => depth e.2).foldr max 0 + 1
  | pairs _ => 1
  | null | bool _ | int _ | float _ | text _ | set _ | bytes _ | unknown | path _ | settings _ => 0
termination_by v => sizeOf v
decreasing_by
  · exact sizeOf_lt_of_mem_parts false (v := list items) ‹_›
  · exact sizeOf_lt_of_mem_parts false (v := tuple items) ‹_›
  · exact sizeOf_lt_of_mem_entries ‹_›

/-- A value all of which has a JSON form: every integer has a numeral, and every key is a text. -/
inductive Writable : Value → Prop
  | null : Writable null
  | bool (b : Bool) : Writable (bool b)
  | int {n : Int} : (Nat.toDigits 10 n.natAbs).length ≤ Numeral.maxDigits → Writable (int n)
  | float (x : Binary64) : Writable (float x)
  | text (s : String) : Writable (text s)
  | list {items} : (∀ v ∈ items, Writable v) → Writable (list items)
  | tuple {items} : (∀ v ∈ items, Writable v) → Writable (tuple items)
  | mapping {entries} : (∀ e ∈ entries, e.1.kind = .text) → (∀ e ∈ entries, Writable e.2) →
      Writable (mapping entries)
  | pairs (p : PairList) : Writable (pairs p)

/-- The limit leaves room for all containers of a value, where some are open already. A value that
is no container needs no room. -/
def Fits (limit : Option Int) (level : Nat) (v : Value) : Prop :=
  ∀ n, limit = some n → 0 < v.depth → (level + v.depth : Int) ≤ n

variable {limit : Option Int} {level : Nat}

theorem foldr_max_le_iff (ds : List Nat) (k : Nat) : ds.foldr max 0 ≤ k ↔ ∀ d ∈ ds, d ≤ k := by
  induction ds with
  | nil => exact ⟨fun _ => nofun, fun _ => Nat.zero_le k⟩
  | cons d ds ih => rw [List.foldr_cons, max_le_iff, ih, List.forall_mem_cons]

theorem fits_iff {v : Value} {us : List Value} (hdepth : v.depth = (us.map depth).foldr max 0 + 1) :
    Fits limit level v ↔ tooDeep? limit level = none ∧ ∀ u ∈ us, Fits limit (level + 1) u := by
  have hroom : tooDeep? limit level = none ↔ ∀ n, limit = some n → (level : Int) < n := by
    unfold tooDeep?
    cases limit with
    | none => exact ⟨fun _ => nofun, fun _ => rfl⟩
    | some n => simp
  rw [hroom]
  constructor
  · intro hfits
    constructor
    · intro n hn
      have hle := hfits n hn (by omega)
      omega
    · intro u hu n hn hpos
      have hle := hfits n hn (by omega)
      have hdeep := (foldr_max_le_iff (us.map depth) _).1 le_rfl u.depth (List.mem_map_of_mem hu)
      push_cast
      omega
  · rintro ⟨hlt, hinside⟩ n hn -
    have hbound : (us.map depth).foldr max 0 ≤ (n - level - 1).toNat := by
      rw [foldr_max_le_iff]
      intro d hd
      obtain ⟨u, hu, rfl⟩ := List.mem_map.1 hd
      rcases Nat.eq_zero_or_pos u.depth with hzero | hpos
      · omega
      · have hle := hinside u hu n hn hpos
        push_cast at hle
        omega
    have hlt := hlt n hn
    omega

theorem fits_of_depth_eq_zero {v : Value} (h : v.depth = 0) : Fits limit level v :=
  fun _ _ hpos => absurd hpos (by omega)

theorem named_of_texts {α : Type} {entries : List (Value × α)}
    (h : ∀ e ∈ entries, e.1.kind = .text) :
    (named entries).map (·.2) = entries.map (·.2) := by
  induction entries with
  | nil => rfl
  | cons e entries ih =>
      obtain ⟨k, v⟩ := e
      have hrest := ih fun e he => h e (List.mem_cons_of_mem _ he)
      have hkind : k.kind = .text := h (k, v) List.mem_cons_self
      cases k with
      | text k => exact congrArg (v :: ·) hrest
      | _ => cases hkind

theorem mem_parts_mapping {sortKeys : Bool} {entries : List (Value × Value)} {u : Value}
    (h : ∀ e ∈ entries, e.1.kind = .text) :
    u ∈ parts sortKeys (mapping entries) ↔ u ∈ entries.map (·.2) := by
  have hperm := (members_perm sortKeys entries).map (·.2)
  rw [named_of_texts h] at hperm
  exact hperm.mem_iff

theorem nonTextKey?_eq_none_iff {entries : List (Value × Value)} :
    Write.nonTextKey? entries = none ↔ ∀ e ∈ entries, e.1.kind = .text := by
  rw [nonTextKey?_eq, Option.map_eq_none_iff, List.find?_eq_none]
  simp

variable {sortKeys : Bool}

theorem fault?_of_no_parts {v : Value} (h : parts sortKeys v = []) :
    v.fault? limit sortKeys level = offence? limit level v := by
  rw [fault?_eq, h, List.findSome?_nil, Option.or_none]

theorem fault?_of_container {v : Value} {us : List Value}
    (hdepth : v.depth = (us.map depth).foldr max 0 + 1)
    (hparts : ∀ u, u ∈ parts sortKeys v ↔ u ∈ us)
    (hoffence : offence? limit level v = tooDeep? limit level)
    (ih : ∀ u ∈ parts sortKeys v,
      u.fault? limit sortKeys (level + 1) = none ↔ u.Writable ∧ u.Fits limit (level + 1)) :
    v.fault? limit sortKeys level = none ↔ (∀ u ∈ us, u.Writable) ∧ v.Fits limit level := by
  rw [fault?_eq, hoffence, Option.or_eq_none_iff, List.findSome?_eq_none_iff, fits_iff hdepth]
  constructor
  · rintro ⟨hroom, hinside⟩
    have hboth : ∀ u ∈ us, u.Writable ∧ u.Fits limit (level + 1) := by
      intro u hu
      have hpart := (hparts u).2 hu
      exact (ih u hpart).1 (hinside u hpart)
    exact ⟨fun u hu => (hboth u hu).1, hroom, fun u hu => (hboth u hu).2⟩
  · rintro ⟨hwritable, hroom, hfits⟩
    refine ⟨hroom, fun u hpart => ?_⟩
    have hu := (hparts u).1 hpart
    exact (ih u hpart).2 ⟨hwritable u hu, hfits u hu⟩

/-- Nothing in a value is refused just if all of it has a JSON form and there is room for it. -/
theorem fault?_eq_none_iff (v : Value) (level : Nat) :
    v.fault? limit sortKeys level = none ↔ v.Writable ∧ v.Fits limit level := by
  induction v using inductionOnParts sortKeys generalizing level with
  | step v ih =>
      have ih : ∀ u ∈ parts sortKeys v,
          u.fault? limit sortKeys (level + 1) = none ↔ u.Writable ∧ u.Fits limit (level + 1) :=
        fun u hu => ih u hu (level + 1)
      cases v with
      | null | bool _ | float _ | text _ =>
          rw [fault?_of_no_parts rfl]
          exact ⟨fun _ => ⟨by constructor, fits_of_depth_eq_zero (by rw [depth])⟩, fun _ => rfl⟩
      | int n =>
          rw [fault?_of_no_parts rfl]
          by_cases hlong : Numeral.maxDigits < (Nat.toDigits 10 n.natAbs).length
          · have hfault : offence? limit level (.int n) = some (.value .numeralTooLong) :=
              if_pos hlong
            rw [hfault]
            refine ⟨nofun, ?_⟩
            rintro ⟨hwritable, -⟩
            cases hwritable with
            | int hshort => exact absurd hlong (Nat.not_lt.2 hshort)
          · have hfault : offence? limit level (.int n) = none := if_neg hlong
            rw [hfault]
            exact ⟨fun _ => ⟨.int (Nat.not_lt.1 hlong), fits_of_depth_eq_zero (by rw [depth])⟩,
              fun _ => rfl⟩
      | list items =>
          have hdepth : (list items).depth = (items.map depth).foldr max 0 + 1 := by rw [depth]
          rw [fault?_of_container hdepth (fun _ => Iff.rfl) rfl ih]
          exact and_congr_left' ⟨.list, fun | .list h => h⟩
      | tuple items =>
          have hdepth : (tuple items).depth = (items.map depth).foldr max 0 + 1 := by rw [depth]
          rw [fault?_of_container hdepth (fun _ => Iff.rfl) rfl ih]
          exact and_congr_left' ⟨.tuple, fun | .tuple h => h⟩
      | mapping entries =>
          cases hkey : Write.nonTextKey? entries with
          | none =>
              have htexts := nonTextKey?_eq_none_iff.1 hkey
              have hoffence : offence? limit level (.mapping entries) = tooDeep? limit level := by
                rw [offence?_mapping, hkey]
              have hdepth : (mapping entries).depth =
                  ((entries.map (·.2)).map depth).foldr max 0 + 1 := by
                rw [depth, List.map_map]
                rfl
              rw [fault?_of_container hdepth (fun _ => mem_parts_mapping htexts) hoffence ih,
                List.forall_mem_map]
              exact and_congr_left' ⟨.mapping htexts, fun | .mapping _ h => h⟩
          | some kind =>
              have hfault : (mapping entries).fault? limit sortKeys level =
                  some (.type (.objectKey kind)) := by
                rw [fault?_eq, offence?_mapping, hkey]
                rfl
              rw [hfault]
              refine ⟨nofun, ?_⟩
              rintro ⟨hwritable, -⟩
              cases hwritable with
              | mapping htexts _ =>
                  rw [nonTextKey?_eq_none_iff.2 htexts] at hkey
                  cases hkey
      | pairs p =>
          have hdepth : (pairs p).depth =
              ((p.entries.map fun e => text e.2).map depth).foldr max 0 + 1 := by
            have hflat : ((p.entries.map fun e => text e.2).map depth).foldr max 0 ≤ 0 := by
              rw [foldr_max_le_iff, List.forall_mem_map, List.forall_mem_map]
              intro e _
              rw [depth]
            rw [depth, Nat.le_zero.1 hflat]
          rw [fault?_of_container hdepth (fun _ => Iff.rfl) rfl ih, List.forall_mem_map]
          exact and_congr_left' ⟨fun _ => .pairs p, fun _ e _ => .text e.2⟩
      | set _ | bytes _ | unknown | path _ | settings _ =>
          rw [fault?_of_no_parts rfl]
          exact ⟨nofun, nofun⟩

end Value

def Settings.unlimited (c : Settings) : Settings :=
  { c with maxNesting := none, maxNesting_pos := pos_of_none_eq }

namespace Write

variable {σ : Type} [Sink σ]

theorem null_ok_iff {s : Session σ} : (∃ s₀, null s = .ok () s₀) ↔
    ∃ (sep : Separator) (st : Stack), s.stack.value = .ok (sep, st) := by
  constructor
  · rintro ⟨s₀, hnull⟩
    have hemit : emit false .null s = .ok () s₀ := hnull
    obtain ⟨sep, st, hvalue, -, -⟩ := grows_of_emit hemit
    exact ⟨sep, st, hvalue⟩
  · rintro ⟨sep, st, hvalue⟩
    obtain ⟨s₀, hnull, -⟩ := ends_valueText "null" hvalue
    exact ⟨s₀, hnull⟩

/-- A value is written just where a null would be, if all of it has a JSON form and the limit leaves
room for its containers. Then it is written as in a document of its own, after the separator that
a null would get, and the open containers and the log are afterwards as after a null. -/
theorem emit_ok_iff_null_ok (sortKeys : Bool) (v : Value) (s : Session σ) :
    ((∃ s', emit sortKeys v s = .ok () s') ↔
      (∃ s₀, null s = .ok () s₀) ∧ v.Writable ∧ ∀ n, s.tracker.limit = some n → 0 < v.depth →
        (s.level + v.depth : Int) ≤ n) ∧
    ∀ s', emit sortKeys v s = .ok () s' →
      ∃ (s₀ : Session σ) (sep : Separator) (text : String),
        null s = .ok () s₀ ∧ s₀.text = s.text ++ (sep.text ++ "null").toList ∧
        (∀ w, Request.render v (.settings s.settings.unlimited) sortKeys w = .ok text w) ∧
        s'.text = s.text ++ (sep.text ++ text).toList ∧ s'.tracker = s₀.tracker ∧
        s'.settings = s.settings := by
  constructor
  · rw [null_ok_iff]
    constructor
    · rintro ⟨s', hemit⟩
      obtain ⟨sep, st, hvalue, hfault, -⟩ := grows_of_emit hemit
      exact ⟨⟨sep, st, hvalue⟩, (Value.fault?_eq_none_iff v s.level).1 hfault⟩
    · rintro ⟨⟨sep, st, hvalue⟩, hfits⟩
      have hends := emits sortKeys v s sep st hvalue
      rw [(Value.fault?_eq_none_iff v s.level).2 hfits] at hends
      obtain ⟨s', hemit, -⟩ := hends
      exact ⟨s', hemit⟩
  · intro s' hemit
    obtain ⟨sep, st, hvalue, hfault, hgrows⟩ := grows_of_emit hemit
    obtain ⟨s₀, hnull, hgrows₀⟩ := ends_valueText "null" hvalue
    -- Without a limit there is room for whatever was written under one.
    have halone : v.fault? s.settings.unlimited.limit sortKeys 0 = none :=
      (Value.fault?_eq_none_iff v 0).2 ⟨((Value.fault?_eq_none_iff v s.level).1 hfault).1, nofun⟩
    have hrender (w : Workspace) := Request.render_of_fault?_eq_none (w := w) halone
    obtain ⟨text, -, htext⟩ := hrender { files := .empty }
    refine ⟨s₀, sep, text, hnull, ?_, ?_, ?_, ?_, hgrows.settings⟩
    · rw [hgrows₀.text, String.toList_append]
    · intro w
      obtain ⟨text', hrun, htext'⟩ := hrender w
      rw [hrun, String.toList_inj.1 (htext'.trans htext.symm)]
    · rw [hgrows.text, String.toList_append, htext]
      rfl
    · rw [hgrows.tracker, hgrows₀.tracker]

end Write
end JsonWriter
