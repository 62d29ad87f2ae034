import JsonWriter.Proofs.Emission.Canonical
import JsonWriter.Proofs.Settings.Language

/-! Settings that the writer itself stores. What is written of them is a settings document, so they
come back as they were. -/
namespace JsonWriter

open Document (Field Fields FlatObject Literal Plain entriesOf)

/-! Texts that are written are texts that are read. -/

namespace Document

open Json (Blank)

theorem literal_jsonText {v : Value} (h : Plain v) (hwritable : v.Writable) (precision : Nat)
    (sortKeys : Bool) : Literal (v.jsonText precision sortKeys) v := by
  cases h with
  | null =>
      rw [Value.jsonText]
      exact .null
  | text s =>
      have hquoted := Literal.string (Json.chars_escape s)
      rw [Value.jsonText, Json.toList_quote]
      rwa [String.ofList_toList] at hquoted
  | int n =>
      cases hwritable with
      | int hshort =>
          rw [Value.jsonText]
          unfold Numeral.ofInt
          split
          · rename_i hn
            have hliteral := Literal.negative (Json.whole_toDigits n.natAbs) hshort
            rwa [Numeral.value_toDigits, Int.ofNat_natAbs_of_nonpos (Int.le_of_lt hn),
              Int.neg_neg] at hliteral
          · rename_i hn
            have hliteral := Literal.positive (Json.whole_toDigits n.natAbs) hshort
            rwa [Numeral.value_toDigits, Int.natAbs_of_nonneg (Int.not_lt.1 hn)] at hliteral

theorem field_quote {u : List Char} {v : Value} (k : String) (h : Literal u v) :
    Field ((Text.quote k).toList ++ ':' :: u) (k, v) := by
  have hfield := Field.mk .nil (Json.chars_escape k) .nil .nil h .nil
  rw [String.ofList_toList] at hfield
  rw [Json.toList_quote]
  simpa using hfield

theorem fields_intercalate {text : String × Value → List Char} {ms : List (String × Value)}
    (hne : ms ≠ []) (h : ∀ m ∈ ms, Field (text m) m) :
    Fields (List.intercalate [','] (ms.map text)) ms := by
  induction ms with
  | nil => exact absurd rfl hne
  | cons m ms ih =>
      have hm := h m List.mem_cons_self
      cases ms with
      | nil =>
          rw [List.map_singleton, List.intercalate_singleton]
          exact .one hm
      | cons m' ms =>
          have hrest := ih (List.cons_ne_nil _ _) fun m hm => h m (List.mem_cons_of_mem _ hm)
          rw [List.map_cons, List.map_cons, List.intercalate_cons_cons, List.append_assoc]
          exact .more hm hrest

theorem members_entriesOf_perm (ms : List (String × Value)) (sortKeys : Bool) :
    (Value.members sortKeys (entriesOf ms)).Perm ms := by
  have hperm := Value.members_perm sortKeys (entriesOf ms)
  rwa [entriesOf, Value.named_texts] at hperm

/-- The compact text of a mapping of plain values is that of an object of its members, in the order
in which they are written. -/
theorem flatObject_jsonText {ms : List (String × Value)} (hne : ms ≠ [])
    (h : ∀ m ∈ ms, Plain m.2 ∧ m.2.Writable) (precision : Nat) (sortKeys : Bool) :
    FlatObject ((Value.mapping (entriesOf ms)).jsonText precision sortKeys)
      (Value.members sortKeys (entriesOf ms)) := by
  have hperm := members_entriesOf_perm ms sortKeys
  have hwritten : Value.members sortKeys (entriesOf ms) ≠ [] := by
    intro hnil
    rw [hnil] at hperm
    exact hne (List.nil_perm.1 hperm)
  have hfields : ∀ m ∈ Value.members sortKeys (entriesOf ms),
      Field ((Text.quote m.1).toList ++ ':' :: m.2.jsonText precision sortKeys) m := by
    intro m hm
    have hvalue := h m (hperm.mem_iff.1 hm)
    exact field_quote m.1 (literal_jsonText hvalue.1 hvalue.2 precision sortKeys)
  rw [Value.jsonText_mapping, Value.objectText, List.map_map]
  exact .mk .nil (fields_intercalate hwritten hfields) .nil

theorem fromUTF8?_toUTF8 (text : String) :
    String.fromUTF8? (ByteArray.mk text.toUTF8.data.toList.toArray) = some text := by
  unfold String.fromUTF8?
  exact dif_pos text.isValidUTF8

end Document

/-! What is stored of settings. -/

theorem Setting.member_injective : Function.Injective Setting.member := by
  intro s t h
  cases s <;> cases t <;> simp_all [member, name, value, limitValue_inj]

/-- Members of settings in another order are those of the settings in another order. -/
theorem Setting.exists_perm {given : List Setting} {ms : List (String × Value)}
    (h : ms.Perm (given.map member)) : ∃ given' : List Setting,
      given'.map member = ms ∧ given'.Perm given := by
  have hmember : ∀ m ∈ ms, ∃ s : Setting, s.member = m := by
    intro m hm
    obtain ⟨s, -, rfl⟩ := List.mem_map.1 (h.mem_iff.1 hm)
    exact ⟨s, rfl⟩
  obtain ⟨given', rfl⟩ := exists_map_member hmember
  exact ⟨given', rfl, (List.map_perm_map_iff member_injective).1 h⟩

namespace Settings

variable {c : Settings} {given given' : List Setting}

theorem GivenBy.perm (h : c.GivenBy given) (hperm : given.Perm given') : c.GivenBy given' where
  precision p hp hgiven := h.precision p hp (hperm.mem_iff.2 hgiven)
  precisionLeftOut hnone := h.precisionLeftOut fun p hp hgiven =>
    hnone p hp (hperm.mem_iff.1 hgiven)
  nesting limit hl hgiven := h.nesting limit hl (hperm.mem_iff.2 hgiven)
  nestingLeftOut hnone := h.nestingLeftOut fun limit hl hgiven =>
    hnone limit hl (hperm.mem_iff.1 hgiven)

theorem GivenBy.writable {s : Setting} (h : c.GivenBy given)
    (hshort : ∀ n, c.maxNesting = some n → (Nat.toDigits 10 n).length ≤ Numeral.maxDigits)
    (hs : s ∈ given) : s.value.Writable := by
  cases s with
  | version => exact .text _
  | precision p hp =>
      have hdigits : (Nat.toDigits 10 p).length ≤ 2 :=
        (Nat.length_toDigits_le_iff (by decide) (by decide)).2 (by omega)
      exact .int (hdigits.trans (by decide))
  | nesting limit hl =>
      have hlimit := h.nesting limit hl hs
      cases limit with
      | none => exact .null
      | some n => exact .int (hshort n hlimit)

end Settings

theorem Value.fits_entriesOf {ms : List (String × Value)} (h : ∀ m ∈ ms, Plain m.2)
    (writer : Settings) : (mapping (entriesOf ms)).Fits writer.limit 0 := by
  have hflat : ((entriesOf ms).map fun e => depth e.2).foldr max 0 ≤ 0 := by
    rw [foldr_max_le_iff, entriesOf, List.map_map, List.forall_mem_map]
    intro m hm
    have hplain := h m hm
    obtain ⟨k, v⟩ := m
    cases hplain <;> simp [depth]
  intro n hn _
  obtain ⟨limit, hlimit, rfl⟩ := Option.map_eq_some_iff.1 hn
  have hpos := writer.maxNesting_pos limit hlimit
  rw [depth, Nat.le_zero.1 hflat, Int.ofNat_eq_natCast]
  omega

namespace Request

variable {v : Value} {c : Settings} {w w' : Workspace} {sortKeys : Bool}

def answer {α : Type} (request : Request α) (w : Workspace) : Except Fault α :=
  match request w with
  | .ok a _ => .ok a
  | .error fault _ => .error fault

theorem answer_render_settings (v : Value) (c : Settings) (sortKeys : Bool) (w w' : Workspace) :
    answer (render v (.settings c) sortKeys) w = answer (render v (.settings c) sortKeys) w' := by
  unfold answer
  cases hfault : v.fault? c.limit sortKeys 0 with
  | none =>
      obtain ⟨text, hrender, htext⟩ := render_of_fault?_eq_none (w := w) hfault
      obtain ⟨text', hrender', htext'⟩ := render_of_fault?_eq_none (w := w') hfault
      rw [hrender, hrender', String.toList_injective (htext.trans htext'.symm)]
  | some fault =>
      rw [render_of_fault?_eq_some hfault, render_of_fault?_eq_some hfault]

/-- A rendering under a source is one under the settings that the source names. -/
theorem answer_render_of_resolve {source : Value}
    (h : Settings.resolve source Settings.roundTrip w = .ok c w') :
    answer (render v source sortKeys) w = answer (render v (.settings c) sortKeys) w := by
  rw [answer_render_settings v c sortKeys w w']
  unfold answer
  rw [render_of_resolve h]

theorem resolve_of_load {source : Value} {location digest : String} {path : Path}
    (hsource : Settings.fileOf? source = some (location, path))
    (hload : Settings.load location path w = .ok (c, digest) w') (fallback : Settings) :
    Settings.resolve source fallback w = .ok c w' := by
  have hrun : (do return (← Settings.load location path).1 : Request Settings) w = .ok c w' :=
    bind_ok hload
  cases source with
  | text _ | path _ =>
      cases hsource
      exact hrun
  | _ => cases hsource

theorem render_entriesOf {ms : List (String × Value)}
    (h : ∀ m ∈ ms, Plain m.2 ∧ m.2.Writable) (writer : Settings) (sortKeys : Bool)
    (w : Workspace) : ∃ text : String,
      render (.mapping (entriesOf ms)) (.settings writer) sortKeys w = .ok text w ∧
        text.toList =
          (Value.mapping (entriesOf ms)).jsonText writer.floatPrecision sortKeys := by
  have hwritable : (Value.mapping (entriesOf ms)).Writable := by
    refine .mapping ?_ ?_
    · rw [entriesOf, List.forall_mem_map]
      exact fun _ _ => rfl
    · rw [entriesOf, List.forall_mem_map]
      exact fun m hm => (h m hm).2
  have hfits := Value.fits_entriesOf (fun m hm => (h m hm).1) writer
  exact render_of_fault?_eq_none ((Value.fault?_eq_none_iff _ 0).2 ⟨hwritable, hfits⟩)

/-- What is written of given settings is a document of these settings, in some order. -/
theorem stored_of_render {given : List Setting} (hversion : .version ∈ given)
    (hnodup : (given.map Setting.name).Nodup) (hwritable : ∀ s ∈ given, s.value.Writable)
    (writer : Settings) (sortKeys : Bool) (w : Workspace) :
    ∃ (text : String) (given' : List Setting),
      render (.mapping (entriesOf (given.map Setting.member))) (.settings writer) sortKeys w =
        .ok text w ∧ given'.Perm given ∧ Setting.Stored text.toUTF8.data.toList given' := by
  have hmembers : ∀ m ∈ given.map Setting.member, Plain m.2 ∧ m.2.Writable := by
    rw [List.forall_mem_map]
    exact fun s hs => ⟨s.plain_value, hwritable s hs⟩
  have hne : given.map Setting.member ≠ [] := List.ne_nil_of_mem (List.mem_map_of_mem hversion)
  obtain ⟨text, hrender, htext⟩ := render_entriesOf hmembers writer sortKeys w
  have hspelled := Document.flatObject_jsonText hne hmembers writer.floatPrecision sortKeys
  obtain ⟨given', hgiven', hperm⟩ := Setting.exists_perm
    (Document.members_entriesOf_perm (given.map Setting.member) sortKeys)
  rw [← htext, ← hgiven'] at hspelled
  exact ⟨text, given', hrender, hperm, ⟨text, Document.fromUTF8?_toUTF8 text, hspelled⟩,
    hperm.mem_iff.2 hversion, (hperm.map Setting.name).nodup_iff.2 hnodup⟩

/-- Settings that are stored come back. Whatever settings they are written with, in whatever order
and with whatever defaults left out, what is in the file afterwards is loaded as just these
settings; and to name the file is then as good as to hand them over. -/
theorem writeDocument_settings_load {given : List Setting} {path : Path} {place : Place}
    (hversion : .version ∈ given) (hnodup : (given.map Setting.name).Nodup)
    (hc : c.GivenBy given)
    (hshort : ∀ n, c.maxNesting = some n → (Nat.toDigits 10 n).length ≤ Numeral.maxDigits)
    (hopens : w.files.Opens path place) (writer : Settings) (sortKeys : Bool) :
    ∃ bytes w', writeDocument path (.mapping (entriesOf (given.map Setting.member)))
        (.settings writer) sortKeys w = .ok () w' ∧
      w'.files.read path = .ok bytes ∧
      (∀ location, ∃ w'',
        Settings.load location path w' = .ok (c, Sha256.digest bytes) w'') ∧
      ∀ source location, Settings.fileOf? source = some (location, path) → ∀ v sorted,
        answer (render v source sorted) w' = answer (render v (.settings c) sorted) w' := by
  obtain ⟨text, given', hrender, hperm, hstored⟩ := stored_of_render hversion hnodup
    (fun s hs => hc.writable hshort hs) writer sortKeys w
  have hwrite := writeFile_of_ok (hopens.write text.toUTF8.data.toList)
  have hread : (w.files.set place (.file text.toUTF8.data.toList)).read path =
      .ok text.toUTF8.data.toList := hopens.read_set
  have hload : ∀ location, Settings.load location path
      { w with files := w.files.set place (.file text.toUTF8.data.toList) } = _ :=
    fun _ => Settings.load_of_stored hread hstored (hc.perm hperm.symm)
  refine ⟨text.toUTF8.data.toList, _, (writeDocument_of_ok hrender).trans hwrite, hread,
    fun location => ⟨_, hload location⟩, ?_⟩
  intro source location hsource v sorted
  exact answer_render_of_resolve (resolve_of_load hsource (hload location) _)

/-- A limit in front of the version, with the precision left out. -/
theorem writeDocument_settings_load_limit : ∃ bytes w',
    writeDocument ⟨0, ["a.json"]⟩
        (.mapping [(.text "max_nesting", .int 5), (.text "config_version", .text "1")])
        (.settings Settings.roundTrip) true { files := .empty } = .ok () w' ∧
      w'.files.read ⟨0, ["a.json"]⟩ = .ok bytes ∧
      (∀ location, ∃ w'', Settings.load location ⟨0, ["a.json"]⟩ w' =
        .ok (⟨6, some 5, by decide, by decide⟩, Sha256.digest bytes) w'') ∧
      ∀ v sorted, answer (render v (.path ⟨0, ["a.json"]⟩) sorted) w' =
        answer (render v (.settings ⟨6, some 5, by decide, by decide⟩) sorted) w' := by
  have hopens : ({ files := .empty } : Workspace).files.Opens ⟨0, ["a.json"]⟩ ["a.json"] :=
    ⟨by decide, by decide, .step rfl (by decide) (.here _), by decide⟩
  have hgiven : Settings.GivenBy ⟨6, some 5, by decide, by decide⟩
      [.nesting (some 5) (by decide), .version] := by
    constructor <;> simp [eq_comm]
  have hshort : ∀ n, some 5 = some n → (Nat.toDigits 10 n).length ≤ Numeral.maxDigits := by
    rintro n ⟨⟩
    decide
  obtain ⟨bytes, w', hwrite, hread, hload, hanswer⟩ := writeDocument_settings_load
    (List.mem_cons_of_mem _ List.mem_cons_self) (by decide) hgiven hshort hopens
    Settings.roundTrip true
  exact ⟨bytes, w', hwrite, hread, hload, hanswer (.path ⟨0, ["a.json"]⟩) _ rfl⟩

end Request
end JsonWriter
