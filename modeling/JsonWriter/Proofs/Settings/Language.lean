import JsonWriter.Proofs.Files.Writing
import JsonWriter.Proofs.Settings.Object

/-! The language of settings documents: what a document may give, what settings it gives, and that
just these documents are loaded. -/
namespace JsonWriter

open Document (FlatObject Plain entriesOf)

/-- A setting as a document gives it, within its bounds. The version is the one read here. -/
inductive Setting where
  | version
  | precision (p : Nat) (h : p ≤ 17)
  | nesting (limit : Option Nat) (h : ∀ n, limit = some n → 0 < n)

namespace Setting

def name : Setting → String
  | version => "config_version"
  | precision .. => "float_precision"
  | nesting .. => "max_nesting"

def limitValue : Option Nat → Value
  | none => .null
  | some n => .int n

def value : Setting → Value
  | version => .text "1"
  | precision p _ => .int p
  | nesting limit _ => limitValue limit

def member (s : Setting) : String × Value := (s.name, s.value)

/-- The bytes are UTF-8 text of an object of some settings. The version is among them, and none is
given twice. -/
structure Stored (bytes : List UInt8) (given : List Setting) : Prop where
  spelled : ∃ text, String.fromUTF8? (ByteArray.mk bytes.toArray) = some text ∧
    FlatObject text.toList (given.map member)
  version : .version ∈ given
  once : (given.map name).Nodup

theorem plain_value (s : Setting) : Plain s.value := by
  cases s with
  | version => exact .text _
  | precision p _ => exact .int _
  | nesting limit _ =>
      cases limit with
      | none => exact .null
      | some n => exact .int _

theorem names_member (given : List Setting) :
    (given.map member).map (·.1) = given.map name := by
  rw [List.map_map]
  rfl

theorem exists_map_member {ms : List (String × Value)} (h : ∀ m ∈ ms, ∃ s : Setting, s.member = m) :
    ∃ given : List Setting, given.map member = ms := by
  have hrange : ms ∈ Set.range (List.map member) := by
    rw [Set.range_list_map]
    exact h
  exact hrange

theorem eq_of_name_eq {given : List Setting} {s t : Setting} (once : (given.map name).Nodup)
    (hs : s ∈ given) (ht : t ∈ given) (h : s.name = t.name) : s = t :=
  List.inj_on_of_nodup_map once hs ht h

theorem precision_mem_iff {given : List Setting} {v : Value} :
    ("float_precision", v) ∈ given.map member ↔
      ∃ (p : Nat) (h : p ≤ 17), .precision p h ∈ given ∧ .int p = v := by
  constructor
  · intro hmem
    obtain ⟨s, hs, heq⟩ := List.mem_map.1 hmem
    cases s with
    | precision p h => exact ⟨p, h, hs, (Prod.mk.inj heq).2⟩
    | version | nesting => simp [member, name] at heq
  · rintro ⟨p, h, hs, rfl⟩
    exact List.mem_map.2 ⟨_, hs, rfl⟩

theorem nesting_mem_iff {given : List Setting} {v : Value} :
    ("max_nesting", v) ∈ given.map member ↔
      ∃ limit h, .nesting limit h ∈ given ∧ limitValue limit = v := by
  constructor
  · intro hmem
    obtain ⟨s, hs, heq⟩ := List.mem_map.1 hmem
    cases s with
    | nesting limit h => exact ⟨limit, h, hs, (Prod.mk.inj heq).2⟩
    | version | precision => simp [member, name] at heq
  · rintro ⟨limit, h, hs, rfl⟩
    exact List.mem_map.2 ⟨_, hs, rfl⟩

theorem limitValue_inj {limit limit' : Option Nat} :
    limitValue limit = limitValue limit' ↔ limit = limit' := by
  cases limit <;> cases limit' <;> simp [limitValue]

end Setting

namespace Settings

/-- The settings that a document gives. What it leaves out has its default. -/
structure GivenBy (c : Settings) (given : List Setting) : Prop where
  precision : ∀ p h, .precision p h ∈ given → c.floatPrecision = p
  precisionLeftOut : (∀ p h, .precision p h ∉ given) → c.floatPrecision = 6
  nesting : ∀ limit h, .nesting limit h ∈ given → c.maxNesting = limit
  nestingLeftOut : (∀ limit h, .nesting limit h ∉ given) → c.maxNesting = none

/-! The members that are looked at. -/

section Members

variable {ms : List (String × Value)} {name : String} {v : Value}

theorem names_entriesOf : names (entriesOf ms) = ms.map (·.1) := by
  unfold names entriesOf
  rw [List.filterMap_map]
  exact congrFun List.filterMap_eq_map' ms

theorem member?_entriesOf :
    member? (entriesOf ms) name = (ms.find? (·.1 == name)).map (·.2) := by
  unfold member? entriesOf
  rw [List.find?_map, Option.map_map]
  rfl

theorem member?_eq_some_iff (hnodup : (ms.map (·.1)).Nodup) :
    member? (entriesOf ms) name = some v ↔ (name, v) ∈ ms := by
  rw [member?_entriesOf]
  constructor
  · intro h
    obtain ⟨⟨n, u⟩, hfind, rfl⟩ := Option.map_eq_some_iff.1 h
    have hn : n = name := by simpa using List.find?_some hfind
    rw [← hn]
    exact List.mem_of_find?_eq_some hfind
  · intro hmem
    have hfound : (ms.find? (·.1 == name)).isSome := List.find?_isSome.2 ⟨_, hmem, by simp⟩
    obtain ⟨⟨n, u⟩, hfind⟩ := Option.isSome_iff_exists.1 hfound
    have hn : n = name := by simpa using List.find?_some hfind
    have heq : (n, u) = (name, v) :=
      List.inj_on_of_nodup_map hnodup (List.mem_of_find?_eq_some hfind) hmem hn
    rw [hfind, heq]
    rfl

/-- A member that is looked at has the value it is given, or the one to fall back on. -/
theorem getD_member?_eq_iff (hnodup : (ms.map (·.1)).Nodup) {fallback : Value} :
    (member? (entriesOf ms) name).getD fallback = v ↔
      (∀ u, (name, u) ∈ ms → u = v) ∧ ((∀ u, (name, u) ∉ ms) → fallback = v) := by
  cases hmember : member? (entriesOf ms) name with
  | some u =>
      have hmem := (member?_eq_some_iff hnodup).1 hmember
      constructor
      · rintro rfl
        refine ⟨fun u' hu' => ?_, fun hnone => absurd hmem (hnone u)⟩
        have hu := (member?_eq_some_iff hnodup).2 hu'
        rw [hmember] at hu
        exact (Option.some.inj hu).symm
      · intro h
        exact h.1 u hmem
  | none =>
      have hnone : ∀ u, (name, u) ∉ ms := by
        intro u hu
        rw [(member?_eq_some_iff hnodup).2 hu] at hmember
        cases hmember
      exact ⟨fun h => ⟨fun u hu => absurd hu (hnone u), fun _ => h⟩, fun h => h.2 hnone⟩

end Members

/-! Values that are checked. -/

theorem checkPrecision_eq_ok_iff {v : Value} {p : {p : Nat // p ≤ 17}} :
    checkPrecision v = .ok p ↔ v = .int p.1 := by
  constructor
  · intro h
    unfold checkPrecision at h
    split at h
    · rename_i n
      split at h
      · rename_i hn
        cases h
        rw [Int.toNat_of_nonneg hn.1]
      · obtain ⟨_, -, hthrow⟩ := exists_of_bind_eq_ok h
        cases hthrow
    · obtain ⟨_, -, hthrow⟩ := exists_of_bind_eq_ok h
      cases hthrow
  · rintro rfl
    obtain ⟨p, hp⟩ := p
    have hbounds : 0 ≤ (p : Int) ∧ (p : Int) ≤ 17 := by omega
    simp only [checkPrecision, dif_pos hbounds]
    rfl

theorem checkNesting_eq_ok_iff {v : Value} {n : {n : Option Nat // ∀ m, n = some m → 0 < m}} :
    checkNesting v = .ok n ↔ v = Setting.limitValue n.1 := by
  have hrefuse : ∀ u, checkNesting.refuse u ≠ .ok n := by
    intro u h
    obtain ⟨_, -, hthrow⟩ := exists_of_bind_eq_ok h
    cases hthrow
  constructor
  · intro h
    unfold checkNesting at h
    split at h
    · cases h
      rfl
    · split at h
      · rename_i hn
        cases h
        change Value.int _ = .int (Int.toNat _ : Int)
        rw [Int.toNat_of_nonneg (Int.le_of_lt hn)]
      · exact absurd h (hrefuse _)
    · exact absurd h (hrefuse _)
  · rintro rfl
    obtain ⟨n, hn⟩ := n
    cases n with
    | none => rfl
    | some m =>
        have hpos : 0 < (m : Int) := Int.natCast_pos.2 (hn m rfl)
        simp only [Setting.limitValue, checkNesting, dif_pos hpos]
        rfl

theorem ofValues_eq_ok_iff {precision nesting : Value} {c : Settings} :
    ofValues precision nesting = .ok c ↔
      precision = .int c.floatPrecision ∧ nesting = Setting.limitValue c.maxNesting := by
  constructor
  · intro h
    obtain ⟨p, hp, hnext⟩ := exists_of_bind_eq_ok h
    obtain ⟨n, hn, heq⟩ := exists_of_bind_eq_ok hnext
    cases heq
    exact ⟨checkPrecision_eq_ok_iff.1 hp, checkNesting_eq_ok_iff.1 hn⟩
  · rintro ⟨rfl, rfl⟩
    have hp : checkPrecision (.int c.floatPrecision) = .ok ⟨_, c.floatPrecision_le⟩ :=
      checkPrecision_eq_ok_iff.2 rfl
    have hn : checkNesting (Setting.limitValue c.maxNesting) = .ok ⟨_, c.maxNesting_pos⟩ :=
      checkNesting_eq_ok_iff.2 rfl
    unfold ofValues
    rw [hp, hn]
    rfl

theorem eq_of_isText {v : Value} {s : String} (h : v.isText s = true) : v = .text s := by
  cases v with
  | text t => exact congrArg Value.text (beq_iff_eq.1 h)
  | _ => cases h

/-- The members of a document are taken where it is an object with the version that is read here and
with known names only. -/
theorem membersOf_eq_ok_iff {location : String} {document : Value}
    {entries : List (Value × Value)} : membersOf location document = .ok entries ↔
      document = .mapping entries ∧ member? entries "config_version" = some (.text "1") ∧
        ∀ name ∈ names entries, name ∈ knownNames := by
  constructor
  · intro h
    cases document with
    | mapping found =>
        unfold membersOf at h
        dsimp only at h
        split at h
        · obtain ⟨_, -, hnext⟩ := exists_of_bind_eq_ok h
          obtain ⟨_, hthrow, -⟩ := exists_of_bind_eq_ok hnext
          cases hthrow
        · rename_i hversion
          split at h
          · obtain ⟨_, -, hnext⟩ := exists_of_bind_eq_ok h
            obtain ⟨_, hthrow, -⟩ := exists_of_bind_eq_ok hnext
            cases hthrow
          · rename_i hknown
            cases h
            refine ⟨rfl, ?_, ?_⟩
            · cases hmember : member? entries "config_version" with
              | none =>
                  rw [hmember] at hversion
                  exact absurd rfl hversion
              | some v =>
                  rw [hmember] at hversion
                  have htext : v.isText "1" = true := by simpa using hversion
                  rw [eq_of_isText htext]
            · simpa [List.filter_eq_nil_iff] using hknown
    | _ => cases h
  · rintro ⟨rfl, hversion, hknown⟩
    have hnone : ((names entries).filter fun name => !knownNames.contains name) = [] := by
      simpa [List.filter_eq_nil_iff] using hknown
    simp only [membersOf, hversion, hnone]
    rfl

/-! What is loaded. -/

theorem givenBy_iff {c : Settings} {given : List Setting}
    (once : (given.map Setting.name).Nodup) : c.GivenBy given ↔ ofValues
      ((member? (entriesOf (given.map Setting.member)) "float_precision").getD defaultPrecision)
      ((member? (entriesOf (given.map Setting.member)) "max_nesting").getD .null) = .ok c := by
  have hnodup : ((given.map Setting.member).map (·.1)).Nodup := by
    rw [Setting.names_member]
    exact once
  rw [ofValues_eq_ok_iff, getD_member?_eq_iff hnodup, getD_member?_eq_iff hnodup]
  simp only [Setting.precision_mem_iff, Setting.nesting_mem_iff]
  constructor
  · intro h
    refine ⟨⟨?_, ?_⟩, ?_, ?_⟩
    · rintro u ⟨p, hp, hgiven, rfl⟩
      rw [h.precision p hp hgiven]
    · intro hnone
      rw [h.precisionLeftOut fun p hp hgiven => hnone _ ⟨p, hp, hgiven, rfl⟩]
      rfl
    · rintro u ⟨limit, hl, hgiven, rfl⟩
      rw [h.nesting limit hl hgiven]
    · intro hnone
      rw [h.nestingLeftOut fun limit hl hgiven => hnone _ ⟨limit, hl, hgiven, rfl⟩]
      rfl
  · rintro ⟨⟨hprecision, hleft⟩, hnesting, hleft'⟩
    refine ⟨?_, ?_, ?_, ?_⟩
    · intro p hp hgiven
      have heq := hprecision _ ⟨p, hp, hgiven, rfl⟩
      exact (Int.ofNat.inj (Value.int.inj heq)).symm
    · intro hnone
      have heq := hleft fun u ⟨p, hp, hgiven, _⟩ => hnone p hp hgiven
      exact (Int.ofNat.inj (Value.int.inj heq)).symm
    · intro limit hl hgiven
      have heq := hnesting _ ⟨limit, hl, hgiven, rfl⟩
      exact (Setting.limitValue_inj.1 heq).symm
    · intro hnone
      have heq : Setting.limitValue none = Setting.limitValue c.maxNesting :=
        hleft' fun u ⟨limit, hl, hgiven, _⟩ => hnone limit hl hgiven
      exact (Setting.limitValue_inj.1 heq).symm

/-- What is given at most once, or else falls back on something, has a value. -/
theorem exists_given_or {α : Type} {P : α → Prop} (hunique : ∀ a b, P a → P b → a = b)
    (fallback : α) : ∃ a, (∀ b, P b → a = b) ∧ ((∀ b, ¬P b) → a = fallback) := by
  by_cases h : ∃ a, P a
  · obtain ⟨a, ha⟩ := h
    exact ⟨a, fun b hb => hunique a b ha hb, fun hnone => absurd ha (hnone a)⟩
  · exact ⟨fallback, fun b hb => absurd ⟨b, hb⟩ h, fun _ => rfl⟩

theorem exists_givenBy {given : List Setting} (once : (given.map Setting.name).Nodup) :
    ∃ c : Settings, c.GivenBy given := by
  have hprecision : ∀ p q : {p : Nat // p ≤ 17}, .precision p.1 p.2 ∈ given →
      .precision q.1 q.2 ∈ given → p = q := by
    intro p q hp hq
    exact Subtype.ext (Setting.precision.inj (Setting.eq_of_name_eq once hp hq rfl))
  have hnesting : ∀ m n : {limit : Option Nat // ∀ n, limit = some n → 0 < n},
      .nesting m.1 m.2 ∈ given → .nesting n.1 n.2 ∈ given → m = n := by
    intro m n hm hn
    exact Subtype.ext (Setting.nesting.inj (Setting.eq_of_name_eq once hm hn rfl))
  obtain ⟨p, hp, hpLeftOut⟩ := exists_given_or hprecision ⟨6, by decide⟩
  obtain ⟨n, hn, hnLeftOut⟩ := exists_given_or hnesting ⟨none, by simp⟩
  refine ⟨⟨p.1, n.1, p.2, n.2⟩, ?_, ?_, ?_, ?_⟩
  · exact fun q hq hgiven => congrArg Subtype.val (hp ⟨q, hq⟩ hgiven)
  · exact fun hnone => congrArg Subtype.val (hpLeftOut fun q => hnone q.1 q.2)
  · exact fun limit hl hgiven => congrArg Subtype.val (hn ⟨limit, hl⟩ hgiven)
  · exact fun hnone => congrArg Subtype.val (hnLeftOut fun m => hnone m.1 m.2)

variable {location : String} {path : Path} {w w' : Workspace} {c : Settings} {digest : String}

theorem load_eq_ok_iff : load location path w = .ok (c, digest) w' ↔
    ∃ bytes document entries, w.files.read path = .ok bytes ∧
      documentOf location bytes = .ok document ∧ membersOf location document = .ok entries ∧
      ofValues ((member? entries "float_precision").getD defaultPrecision)
        ((member? entries "max_nesting").getD .null) = .ok c ∧
      digest = Sha256.digest bytes ∧ w' = { w with log := w.log ++ [.loaded location digest] } := by
  constructor
  · intro h
    obtain ⟨bytes, _, hreadFile, h⟩ := bind_eq_ok h
    obtain ⟨hread, rfl⟩ := Request.readFile_eq_ok_iff.1 hreadFile
    obtain ⟨document, _, hcheck, h⟩ := bind_eq_ok h
    obtain ⟨hdocument, rfl⟩ := Request.check_eq_ok_iff.1 hcheck
    obtain ⟨entries, _, hcheck, h⟩ := bind_eq_ok h
    obtain ⟨hentries, rfl⟩ := Request.check_eq_ok_iff.1 hcheck
    obtain ⟨_, _, hnote, h⟩ := bind_eq_ok h
    cases hnote
    obtain ⟨_, _, hcheck, h⟩ := bind_eq_ok h
    obtain ⟨hvalues, rfl⟩ := Request.check_eq_ok_iff.1 hcheck
    cases h
    exact ⟨bytes, document, entries, hread, hdocument, hentries, hvalues, rfl, rfl⟩
  · rintro ⟨bytes, document, entries, hread, hdocument, hentries, hvalues, rfl, rfl⟩
    unfold load
    rw [bind_ok (Request.readFile_eq_ok_iff.2 ⟨hread, rfl⟩),
      bind_ok (Request.check_eq_ok_iff.2 ⟨hdocument, rfl⟩),
      bind_ok (Request.check_eq_ok_iff.2 ⟨hentries, rfl⟩)]
    exact bind_ok (Request.check_eq_ok_iff.2 ⟨hvalues, rfl⟩)

theorem exists_given {ms : List (String × Value)} (hnodup : (ms.map (·.1)).Nodup)
    (hversion : ("config_version", .text "1") ∈ ms) (hknown : ∀ m ∈ ms, m.1 ∈ knownNames)
    (hvalues : ofValues ((member? (entriesOf ms) "float_precision").getD defaultPrecision)
      ((member? (entriesOf ms) "max_nesting").getD .null) = .ok c) :
    ∃ given : List Setting, given.map Setting.member = ms := by
  obtain ⟨hprecision, hnesting⟩ := ofValues_eq_ok_iff.1 hvalues
  have hmember : ∀ m ∈ ms, ∃ s : Setting, s.member = m := by
    rintro ⟨name, v⟩ hm
    have hname := hknown _ hm
    simp only [knownNames, List.mem_cons, List.not_mem_nil, or_false] at hname
    rcases hname with rfl | rfl | rfl
    · have heq := List.inj_on_of_nodup_map hnodup hm hversion rfl
      exact ⟨.version, heq.symm⟩
    · have hv := ((getD_member?_eq_iff hnodup).1 hprecision).1 v hm
      exact ⟨.precision c.floatPrecision c.floatPrecision_le, congrArg _ hv.symm⟩
    · have hv := ((getD_member?_eq_iff hnodup).1 hnesting).1 v hm
      exact ⟨.nesting c.maxNesting c.maxNesting_pos, congrArg _ hv.symm⟩
  exact Setting.exists_map_member hmember

theorem documentOf_eq_ok_iff {bytes : List UInt8} {document : Value} :
    documentOf location bytes = .ok document ↔
      ∃ text, String.fromUTF8? (ByteArray.mk bytes.toArray) = some text ∧
        Document.read text.toList = .ok document := by
  unfold documentOf
  cases String.fromUTF8? (ByteArray.mk bytes.toArray) with
  | none => simp
  | some text =>
      cases hread : Document.read text.toList with
      | error refusal => simp [Except.mapError, hread]
      | ok found => simp [Except.mapError, hread]

theorem load_of_stored {bytes : List UInt8} {given : List Setting}
    (hread : w.files.read path = .ok bytes) (h : Setting.Stored bytes given)
    (hc : c.GivenBy given) : load location path w = .ok (c, Sha256.digest bytes)
      { w with log := w.log ++ [.loaded location (Sha256.digest bytes)] } := by
  obtain ⟨text, htext, hspelled⟩ := h.spelled
  have hnodup : ((given.map Setting.member).map (·.1)).Nodup := by
    rw [Setting.names_member]
    exact h.once
  have hdocument : documentOf location bytes =
      .ok (.mapping (entriesOf (given.map Setting.member))) :=
    documentOf_eq_ok_iff.2 ⟨text, htext, hspelled.read hnodup⟩
  have hversion : ("config_version", .text "1") ∈ given.map Setting.member :=
    List.mem_map.2 ⟨_, h.version, rfl⟩
  have hknown : ∀ name ∈ names (entriesOf (given.map Setting.member)), name ∈ knownNames := by
    rw [names_entriesOf, Setting.names_member]
    intro name hname
    obtain ⟨s, -, rfl⟩ := List.mem_map.1 hname
    cases s <;> simp [Setting.name, knownNames]
  exact load_eq_ok_iff.2 ⟨bytes, _, _, hread, hdocument,
    membersOf_eq_ok_iff.2 ⟨rfl, (member?_eq_some_iff hnodup).2 hversion, hknown⟩,
    (givenBy_iff h.once).1 hc, rfl, rfl⟩

theorem stored_of_load (h : load location path w = .ok (c, digest) w') :
    ∃ bytes given, w.files.read path = .ok bytes ∧ Setting.Stored bytes given ∧
      c.GivenBy given ∧ digest = Sha256.digest bytes ∧
      w' = { w with log := w.log ++ [.loaded location digest] } := by
  obtain ⟨bytes, document, entries, hread, hdocument, hmembers, hvalues, hdigest, hw⟩ :=
    load_eq_ok_iff.1 h
  obtain ⟨text, htext, hparsed⟩ := documentOf_eq_ok_iff.1 hdocument
  obtain ⟨rfl, hversion, hknown⟩ := membersOf_eq_ok_iff.1 hmembers
  have hne : entries ≠ [] := by
    rintro rfl
    cases hversion
  obtain ⟨ms, rfl, hnodup, hspelled⟩ := Document.members_of_read hparsed hne
  rw [names_entriesOf] at hknown
  rw [member?_eq_some_iff hnodup] at hversion
  obtain ⟨given, rfl⟩ := exists_given hnodup hversion
    (fun m hm => hknown _ (List.mem_map_of_mem hm)) hvalues
  have honce : (given.map Setting.name).Nodup := by
    rw [Setting.names_member] at hnodup
    exact hnodup
  have hplain : ∀ m ∈ given.map Setting.member, Plain m.2 := by
    intro m hm
    obtain ⟨s, -, rfl⟩ := List.mem_map.1 hm
    exact s.plain_value
  have hgiven : .version ∈ given := by
    obtain ⟨s, hs, heq⟩ := List.mem_map.1 hversion
    cases s with
    | version => exact hs
    | precision | nesting => simp [Setting.member, Setting.name] at heq
  exact ⟨bytes, given, hread, ⟨⟨text, htext, hspelled hplain⟩, hgiven, honce⟩,
    (givenBy_iff honce).2 hvalues, hdigest, hw⟩

/-- Exactly the settings documents are loaded: whether a file is loaded is decided by what its bytes
spell, and what it gives is what is loaded, with the digest of the bytes. -/
theorem load_iff_stored (location : String) (path : Path) (w : Workspace) :
    ((∃ found w', load location path w = .ok found w') ↔
      ∃ bytes given, w.files.read path = .ok bytes ∧ Setting.Stored bytes given) ∧
    ∀ c digest w', load location path w = .ok (c, digest) w' ↔
      ∃ bytes given, w.files.read path = .ok bytes ∧ Setting.Stored bytes given ∧
        c.GivenBy given ∧ digest = Sha256.digest bytes ∧
        w' = { w with log := w.log ++ [.loaded location digest] } := by
  constructor
  · constructor
    · rintro ⟨⟨c, digest⟩, w', h⟩
      obtain ⟨bytes, given, hread, hstored, -⟩ := stored_of_load h
      exact ⟨bytes, given, hread, hstored⟩
    · rintro ⟨bytes, given, hread, hstored⟩
      obtain ⟨c, hc⟩ := exists_givenBy hstored.once
      exact ⟨_, _, load_of_stored hread hstored hc⟩
  · intro c digest w'
    constructor
    · exact stored_of_load
    · rintro ⟨bytes, given, hread, hstored, hc, rfl, rfl⟩
      exact load_of_stored hread hstored hc

end Settings
end JsonWriter
