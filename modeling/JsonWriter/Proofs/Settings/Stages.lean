import JsonWriter.Proofs.Document.Display
import JsonWriter.Proofs.Document.Events
import JsonWriter.Proofs.Emission.Steps
import JsonWriter.Proofs.Settings.Language

/-! The stages of a load, each of which may fail: the file is read, its bytes are decoded, the text
is looked at from left to right, and then the settings in it are checked one after another. Every
file comes to exactly one of them. -/
namespace JsonWriter.Settings

open Document (Event First Item Occurrence Refusal entriesOf)

/-- Where a load ends: the stage that fails, with what it fails for, or the settings. -/
inductive Stage where
  | reading (cause : FileFault)
  | decoding
  | scanning (o : Occurrence)
  | object
  | version (given : Value)
  | names (unknown : List String)
  | precision (given : Value)
  | nesting (given : Value)
  | done (c : Settings)

/-- The bytes of the file are a text. -/
def Decoded (files : FileStore) (path : Path) (text : String) : Prop :=
  ∃ bytes, files.read path = .ok bytes ∧ String.fromUTF8? (ByteArray.mk bytes.toArray) = some text

/-- The text spells a value, and nothing occurs in it. -/
def Scanned (files : FileStore) (path : Path) (v : Value) : Prop :=
  ∃ text, Decoded files path text ∧ Item text.toList v ∧ ∀ p o, ¬Event text.toList p o

/-- A member has a value, or is left out and has the one to fall back on. -/
def Given (ms : List (String × Value)) (name : String) (fallback v : Value) : Prop :=
  (name, v) ∈ ms ∨ (∀ u, (name, u) ∉ ms) ∧ v = fallback

/-- The names that are not known, in the order of their code points. -/
structure Unknown (ms : List (String × Value)) (unknown : List String) : Prop where
  sorted : unknown.Pairwise (· < ·)
  mem_iff : ∀ name, name ∈ unknown ↔ (∃ v, (name, v) ∈ ms) ∧
    name ∉ ["config_version", "float_precision", "max_nesting"]

def ValidPrecision (v : Value) : Prop := ∃ p : Nat, p ≤ 17 ∧ v = .int p

def ValidNesting (v : Value) : Prop := v = .null ∨ ∃ n : Nat, 0 < n ∧ v = .int n

/-- Where the values of settings are at fault, the precision before the nesting, or else the
settings that they are. -/
inductive ValuesEnd (ms : List (String × Value)) : Stage → Prop
  | precision {v} : Given ms "float_precision" (.int 6) v → ¬ValidPrecision v →
      ValuesEnd ms (.precision v)
  | nesting {u v} : Given ms "float_precision" (.int 6) u → ValidPrecision u →
      Given ms "max_nesting" .null v → ¬ValidNesting v → ValuesEnd ms (.nesting v)
  | done {c : Settings} : Given ms "float_precision" (.int 6) (.int c.floatPrecision) →
      Given ms "max_nesting" .null (Setting.limitValue c.maxNesting) → ValuesEnd ms (.done c)

/-- Where the members of an object are at fault: the version, then the names, then the values. -/
inductive MembersEnd (ms : List (String × Value)) : Stage → Prop
  | version {v} : Given ms "config_version" .null v → v ≠ .text "1" → MembersEnd ms (.version v)
  | names {unknown} : Given ms "config_version" .null (.text "1") → Unknown ms unknown →
      unknown ≠ [] → MembersEnd ms (.names unknown)
  | values {stage} : Given ms "config_version" .null (.text "1") → Unknown ms [] →
      ValuesEnd ms stage → MembersEnd ms stage

/-- A load ends at a stage: the first at which its file is at fault, or the last. -/
inductive EndsAt (files : FileStore) (path : Path) : Stage → Prop
  | reading {cause} : files.read path = .error (.file cause path) →
      EndsAt files path (.reading cause)
  | decoding {bytes} : files.read path = .ok bytes →
      String.fromUTF8? (ByteArray.mk bytes.toArray) = none → EndsAt files path .decoding
  | scanning {text p o} : Decoded files path text → First text.toList p o →
      EndsAt files path (.scanning o)
  | object {v} : Scanned files path v → (∀ entries, v ≠ .mapping entries) →
      EndsAt files path .object
  | members {ms stage} : Scanned files path (.mapping (entriesOf ms)) → MembersEnd ms stage →
      EndsAt files path stage

/-! Members and what they give. -/

section Members

variable {ms : List (String × Value)} {name : String} {fallback v v' : Value}

theorem given_iff (hnodup : (ms.map (·.1)).Nodup) :
    Given ms name fallback v ↔ (member? (entriesOf ms) name).getD fallback = v := by
  rw [getD_member?_eq_iff hnodup]
  constructor
  · rintro (hmem | ⟨hnone, rfl⟩)
    · refine ⟨fun u hu => ?_, fun hnone => absurd hmem (hnone v)⟩
      have heq := List.inj_on_of_nodup_map hnodup hu hmem rfl
      exact (Prod.mk.inj heq).2
    · exact ⟨fun u hu => absurd hu (hnone u), fun _ => rfl⟩
  · rintro ⟨hgiven, hleft⟩
    by_cases h : ∃ u, (name, u) ∈ ms
    · obtain ⟨u, hu⟩ := h
      rw [← hgiven u hu]
      exact .inl hu
    · have hnone : ∀ u, (name, u) ∉ ms := fun u hu => h ⟨u, hu⟩
      exact .inr ⟨hnone, (hleft hnone).symm⟩

theorem Given.unique (hnodup : (ms.map (·.1)).Nodup) (hv : Given ms name fallback v)
    (hv' : Given ms name fallback v') : v = v' := by
  rw [given_iff hnodup] at hv hv'
  exact hv.symm.trans hv'

theorem exists_given_value (ms : List (String × Value)) (name : String) (fallback : Value) :
    ∃ v, Given ms name fallback v := by
  by_cases h : ∃ u, (name, u) ∈ ms
  · obtain ⟨u, hu⟩ := h
    exact ⟨u, .inl hu⟩
  · exact ⟨fallback, .inr ⟨fun u hu => h ⟨u, hu⟩, rfl⟩⟩

theorem pairwise_sorted (names : List String) : (Text.sorted names).Pairwise (· ≤ ·) := by
  have htrans : ∀ a b c : String,
      Text.atMost a b = true → Text.atMost b c = true → Text.atMost a c = true := by
    intro a b c hab hbc
    rw [Text.atMost_eq, decide_eq_true_eq] at hab hbc ⊢
    exact le_trans hab hbc
  have htotal : ∀ a b : String, (Text.atMost a b || Text.atMost b a) = true := by
    intro a b
    rw [Text.atMost_eq, Text.atMost_eq, Bool.or_eq_true, decide_eq_true_eq, decide_eq_true_eq]
    exact le_total a b
  refine (List.pairwise_mergeSort htrans htotal names).imp fun {a b} hab => ?_
  rwa [Text.atMost_eq, decide_eq_true_eq] at hab

theorem Unknown.unique {unknown unknown' : List String} (h : Unknown ms unknown)
    (h' : Unknown ms unknown') : unknown = unknown' := by
  have hperm : unknown.Perm unknown' := by
    rw [List.perm_ext_iff_of_nodup (h.sorted.imp ne_of_lt) (h'.sorted.imp ne_of_lt)]
    exact fun name => (h.mem_iff name).trans (h'.mem_iff name).symm
  exact hperm.eq_of_pairwise (fun a b _ _ hab hba => absurd hab (lt_asymm hba)) h.sorted h'.sorted

theorem unknown_sorted (hnodup : (ms.map (·.1)).Nodup) : Unknown ms
    (Text.sorted ((names (entriesOf ms)).filter fun name => !knownNames.contains name)) where
  sorted := by
    rw [names_entriesOf]
    have hdistinct := (List.mergeSort_perm _ Text.atMost).nodup_iff.2
      (hnodup.filter fun name => !knownNames.contains name)
    exact ((pairwise_sorted _).and hdistinct).imp fun hab => lt_of_le_of_ne hab.1 hab.2
  mem_iff name := by
    rw [Text.sorted, List.mem_mergeSort, List.mem_filter, names_entriesOf]
    simp [knownNames]

theorem Unknown.known (h : Unknown ms []) : ∀ m ∈ ms, m.1 ∈ knownNames := by
  intro m hm
  by_contra hunknown
  have hmem := (h.mem_iff m.1).2 ⟨⟨m.2, hm⟩, hunknown⟩
  cases hmem

end Members

/-! Exactly one stage is the last, of the values, of the members and of the whole load. -/

section Values

variable {ms : List (String × Value)} {stage stage' : Stage}

theorem exists_limit {v : Value} (h : ValidNesting v) : ∃ limit : Option Nat,
    (∀ n, limit = some n → 0 < n) ∧ v = Setting.limitValue limit := by
  rcases h with rfl | ⟨n, hpos, rfl⟩
  · exact ⟨none, by simp, rfl⟩
  · exact ⟨some n, fun m hm => Option.some.inj hm ▸ hpos, rfl⟩

theorem validNesting_limitValue (c : Settings) :
    ValidNesting (Setting.limitValue c.maxNesting) := by
  cases hlimit : c.maxNesting with
  | none => exact .inl rfl
  | some n => exact .inr ⟨n, c.maxNesting_pos n hlimit, rfl⟩

theorem exists_valuesEnd (ms : List (String × Value)) : ∃ stage, ValuesEnd ms stage := by
  obtain ⟨u, hu⟩ := exists_given_value ms "float_precision" (.int 6)
  by_cases hprecision : ValidPrecision u
  · obtain ⟨v, hv⟩ := exists_given_value ms "max_nesting" .null
    by_cases hnesting : ValidNesting v
    · obtain ⟨p, hp, rfl⟩ := hprecision
      obtain ⟨limit, hpos, rfl⟩ := exists_limit hnesting
      exact ⟨.done ⟨p, limit, hp, hpos⟩, .done hu hv⟩
    · exact ⟨_, .nesting hu hprecision hv hnesting⟩
  · exact ⟨_, .precision hu hprecision⟩

theorem ValuesEnd.unique (hnodup : (ms.map (·.1)).Nodup) (h : ValuesEnd ms stage)
    (h' : ValuesEnd ms stage') : stage = stage' := by
  have hvalid : ∀ c : Settings, ValidPrecision (.int c.floatPrecision) :=
    fun c => ⟨_, c.floatPrecision_le, rfl⟩
  cases h with
  | precision hu hinvalid =>
      cases h' with
      | precision hu' _ => rw [hu.unique hnodup hu']
      | nesting hu' hvalid' _ _ =>
          rw [hu.unique hnodup hu'] at hinvalid
          exact absurd hvalid' hinvalid
      | done hu' _ =>
          rw [hu.unique hnodup hu'] at hinvalid
          exact absurd (hvalid _) hinvalid
  | nesting hu hvalid' hv hinvalid =>
      cases h' with
      | precision hu' hinvalid' =>
          rw [hu'.unique hnodup hu] at hinvalid'
          exact absurd hvalid' hinvalid'
      | nesting _ _ hv' _ => rw [hv.unique hnodup hv']
      | done _ hv' =>
          rw [hv.unique hnodup hv'] at hinvalid
          exact absurd (validNesting_limitValue _) hinvalid
  | @done c hu hv =>
      cases h' with
      | precision hu' hinvalid' =>
          rw [hu'.unique hnodup hu] at hinvalid'
          exact absurd (hvalid _) hinvalid'
      | nesting _ _ hv' hinvalid' =>
          rw [hv'.unique hnodup hv] at hinvalid'
          exact absurd (validNesting_limitValue _) hinvalid'
      | @done c' hu' hv' =>
          have hprecision := Int.ofNat.inj (Value.int.inj (hu.unique hnodup hu'))
          have hnesting := Setting.limitValue_inj.1 (hv.unique hnodup hv')
          obtain ⟨p, limit, _, _⟩ := c
          obtain ⟨p', limit', _, _⟩ := c'
          cases hprecision
          cases hnesting
          rfl

theorem exists_membersEnd (hnodup : (ms.map (·.1)).Nodup) : ∃ stage, MembersEnd ms stage := by
  obtain ⟨v, hv⟩ := exists_given_value ms "config_version" .null
  by_cases hversion : v = .text "1"
  · subst hversion
    have hunknown := unknown_sorted hnodup
    by_cases hnil :
        Text.sorted ((names (entriesOf ms)).filter fun name => !knownNames.contains name) = []
    · rw [hnil] at hunknown
      obtain ⟨stage, hstage⟩ := exists_valuesEnd ms
      exact ⟨stage, .values hv hunknown hstage⟩
    · exact ⟨_, .names hv hunknown hnil⟩
  · exact ⟨_, .version hv hversion⟩

theorem MembersEnd.unique (hnodup : (ms.map (·.1)).Nodup) (h : MembersEnd ms stage)
    (h' : MembersEnd ms stage') : stage = stage' := by
  cases h with
  | version hv hne =>
      cases h' with
      | version hv' _ => rw [hv.unique hnodup hv']
      | names hv' _ _ | values hv' _ _ => exact absurd (hv.unique hnodup hv') hne
  | names hv hunknown hne =>
      cases h' with
      | version hv' hne' => exact absurd (hv'.unique hnodup hv) hne'
      | names _ hunknown' _ => rw [hunknown.unique hunknown']
      | values _ hnil _ => exact absurd (hunknown.unique hnil) hne
  | values hv hnil hvalues =>
      cases h' with
      | version hv' hne' => exact absurd (hv'.unique hnodup hv) hne'
      | names _ hunknown hne' => exact absurd (hunknown.unique hnil) hne'
      | values _ _ hvalues' => exact hvalues.unique hnodup hvalues'

end Values

/-! What is known of a file whose stages are passed. -/

section Passed

variable {files : FileStore} {path : Path} {v v' : Value} {ms ms' : List (String × Value)}
  {stage stage' : Stage}

theorem Scanned.read (h : Scanned files path v) :
    ∃ text, Decoded files path text ∧ Document.read text.toList = .ok v := by
  obtain ⟨text, hdecoded, hitem, hnone⟩ := h
  exact ⟨text, hdecoded, ((Document.read_first text.toList).2.2 v).2 ⟨hitem, hnone⟩⟩

theorem Decoded.document {text : String} (h : Decoded files path text) (location : String) :
    ∃ bytes, files.read path = .ok bytes ∧ documentOf location bytes =
      (Document.read text.toList).mapError (refuse location) := by
  obtain ⟨bytes, hread, htext⟩ := h
  refine ⟨bytes, hread, ?_⟩
  rw [documentOf, htext]

theorem entriesOf_injective : Function.Injective entriesOf :=
  List.map_injective_iff.2 fun m m' h => by
    obtain ⟨hname, hvalue⟩ := Prod.mk.inj h
    exact Prod.ext (Value.text.inj hname) hvalue

theorem exists_members {s : List Char} {entries : List (Value × Value)}
    (h : Document.read s = .ok (.mapping entries)) :
    ∃ ms, entries = entriesOf ms ∧ (ms.map (·.1)).Nodup := by
  cases entries with
  | nil => exact ⟨[], rfl, List.nodup_nil⟩
  | cons e entries =>
      obtain ⟨ms, heq, hnodup, -⟩ := Document.members_of_read h (List.cons_ne_nil _ _)
      exact ⟨ms, heq, hnodup⟩

theorem Scanned.nodup (h : Scanned files path (.mapping (entriesOf ms))) :
    (ms.map (·.1)).Nodup := by
  obtain ⟨text, -, hread⟩ := h.read
  obtain ⟨ms', heq, hnodup⟩ := exists_members hread
  rwa [entriesOf_injective heq]

theorem Scanned.shown (h : Scanned files path v) : v.Shown := by
  obtain ⟨text, -, hread⟩ := h.read
  exact Document.shown_of_read hread

/-- What a member gives can be shown, if what it falls back on can. -/
theorem Scanned.given_shown {name : String} {fallback : Value}
    (h : Scanned files path (.mapping (entriesOf ms))) (hfallback : fallback.Shown)
    (hgiven : Given ms name fallback v) : ∃ shown, v.display? = some shown := by
  rcases hgiven with hmem | ⟨-, rfl⟩
  · exact Option.isSome_iff_exists.1 (Value.shown_entriesOf_iff.1 h.shown _ hmem)
  · exact Option.isSome_iff_exists.1 hfallback

theorem Decoded.unique {text text' : String} (h : Decoded files path text)
    (h' : Decoded files path text') : text = text' := by
  obtain ⟨bytes, hread, htext⟩ := h
  obtain ⟨bytes', hread', htext'⟩ := h'
  rw [hread] at hread'
  cases hread'
  rw [htext] at htext'
  exact Option.some.inj htext'

theorem Scanned.unique (h : Scanned files path v) (h' : Scanned files path v') : v = v' := by
  obtain ⟨text, hdecoded, hread⟩ := h.read
  obtain ⟨text', hdecoded', hread'⟩ := h'.read
  rw [hdecoded'.unique hdecoded, hread] at hread'
  exact Except.ok.inj hread'

theorem Scanned.members_unique (h : Scanned files path (.mapping (entriesOf ms)))
    (h' : Scanned files path (.mapping (entriesOf ms'))) : ms = ms' :=
  entriesOf_injective (Value.mapping.inj (h.unique h'))

theorem Scanned.not_first {text : String} {p : Nat} {o : Occurrence} (h : Scanned files path v)
    (h' : Decoded files path text) : ¬First text.toList p o := by
  obtain ⟨text', hdecoded, -, hnone⟩ := h
  rw [h'.unique hdecoded]
  exact fun hfirst => hnone p o hfirst.1

/-- A path without NUL characters fails for what it leads to. -/
theorem exists_cause {fault : Fault} (hnul : path.hasNul = false)
    (h : files.read path = .error fault) : ∃ cause, fault = .file cause path := by
  unfold FileStore.read FileStore.placeOf at h
  rw [hnul, if_neg Bool.false_ne_true] at h
  rcases bind_eq_error_cases h with hplace | ⟨place, -, hentry⟩
  · split at hplace
    · cases hplace
    · cases hplace
      exact ⟨_, rfl⟩
  · split at hentry
    · cases hentry
    · cases hentry
      exact ⟨_, rfl⟩
    · cases hentry
      exact ⟨_, rfl⟩

theorem Scanned.exists_endsAt (h : Scanned files path v) : ∃ stage, EndsAt files path stage := by
  by_cases hobject : ∃ entries, v = .mapping entries
  · obtain ⟨entries, rfl⟩ := hobject
    obtain ⟨text, hdecoded, hread⟩ := h.read
    obtain ⟨ms, rfl, hnodup⟩ := exists_members hread
    obtain ⟨stage, hstage⟩ := exists_membersEnd hnodup
    exact ⟨stage, .members h hstage⟩
  · exact ⟨_, .object h fun entries hv => hobject ⟨entries, hv⟩⟩

theorem exists_endsAt (files : FileStore) (hnul : path.hasNul = false) :
    ∃ stage, EndsAt files path stage := by
  cases hread : files.read path with
  | error fault =>
      obtain ⟨cause, rfl⟩ := exists_cause hnul hread
      exact ⟨_, .reading hread⟩
  | ok bytes =>
      cases htext : String.fromUTF8? (ByteArray.mk bytes.toArray) with
      | none => exact ⟨_, .decoding hread htext⟩
      | some text =>
          have hdecoded : Decoded files path text := ⟨bytes, hread, htext⟩
          by_cases hevent : ∃ p o, Event text.toList p o
          · obtain ⟨p, o, hevent⟩ := hevent
            obtain ⟨p', o', hfirst⟩ := Document.exists_first hevent
            exact ⟨_, .scanning hdecoded hfirst⟩
          · have hnone : ∀ p o, ¬Event text.toList p o := fun p o h => hevent ⟨p, o, h⟩
            obtain ⟨v, hv⟩ := Document.exists_item_of_no_event hnone
            exact Scanned.exists_endsAt ⟨text, hdecoded, hv, hnone⟩

theorem not_decoded_of_reading {cause : FileFault} {text : String}
    (h : files.read path = .error (.file cause path)) : ¬Decoded files path text := by
  rintro ⟨bytes, hread, -⟩
  rw [h] at hread
  cases hread

theorem not_decoded_of_decoding {bytes : List UInt8} {text : String}
    (h : files.read path = .ok bytes)
    (hnone : String.fromUTF8? (ByteArray.mk bytes.toArray) = none) :
    ¬Decoded files path text := by
  rintro ⟨bytes', hread, htext⟩
  rw [h] at hread
  cases hread
  rw [hnone] at htext
  cases htext

theorem not_scanned_of_reading {cause : FileFault}
    (h : files.read path = .error (.file cause path)) : ¬Scanned files path v := by
  rintro ⟨text, hdecoded, -⟩
  exact not_decoded_of_reading h hdecoded

theorem not_scanned_of_decoding {bytes : List UInt8} (h : files.read path = .ok bytes)
    (hnone : String.fromUTF8? (ByteArray.mk bytes.toArray) = none) : ¬Scanned files path v := by
  rintro ⟨text, hdecoded, -⟩
  exact not_decoded_of_decoding h hnone hdecoded

theorem EndsAt.unique (h : EndsAt files path stage) (h' : EndsAt files path stage') :
    stage = stage' := by
  cases h with
  | reading hread =>
      cases h' with
      | reading hread' =>
          rw [hread] at hread'
          cases hread'
          rfl
      | decoding hread' _ =>
          rw [hread] at hread'
          cases hread'
      | scanning hdecoded _ => exact absurd hdecoded (not_decoded_of_reading hread)
      | object hscanned _ | members hscanned _ =>
          exact absurd hscanned (not_scanned_of_reading hread)
  | decoding hread hnone =>
      cases h' with
      | reading hread' =>
          rw [hread] at hread'
          cases hread'
      | decoding _ _ => rfl
      | scanning hdecoded _ => exact absurd hdecoded (not_decoded_of_decoding hread hnone)
      | object hscanned _ | members hscanned _ =>
          exact absurd hscanned (not_scanned_of_decoding hread hnone)
  | scanning hdecoded hfirst =>
      cases h' with
      | reading hread => exact absurd hdecoded (not_decoded_of_reading hread)
      | decoding hread hnone => exact absurd hdecoded (not_decoded_of_decoding hread hnone)
      | scanning hdecoded' hfirst' =>
          rw [← hdecoded.unique hdecoded'] at hfirst'
          rw [(hfirst.unique hfirst').2]
      | object hscanned _ | members hscanned _ =>
          exact absurd hfirst (hscanned.not_first hdecoded)
  | object hscanned hobject =>
      cases h' with
      | reading hread => exact absurd hscanned (not_scanned_of_reading hread)
      | decoding hread hnone => exact absurd hscanned (not_scanned_of_decoding hread hnone)
      | scanning hdecoded hfirst => exact absurd hfirst (hscanned.not_first hdecoded)
      | object _ _ => rfl
      | members hscanned' _ => exact absurd (hscanned.unique hscanned') (hobject _)
  | members hscanned hmembers =>
      cases h' with
      | reading hread => exact absurd hscanned (not_scanned_of_reading hread)
      | decoding hread hnone => exact absurd hscanned (not_scanned_of_decoding hread hnone)
      | scanning hdecoded hfirst => exact absurd hfirst (hscanned.not_first hdecoded)
      | object hscanned' hobject => exact absurd (hscanned'.unique hscanned) (hobject _)
      | members hscanned' hmembers' =>
          cases hscanned.members_unique hscanned'
          exact hmembers.unique hscanned.nodup hmembers'

end Passed

end JsonWriter.Settings
