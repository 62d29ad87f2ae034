import JsonWriter.Proofs.Settings.Stages
import JsonWriter.Proofs.Settings.Stored

/-! What a load comes to. It reports what is at fault at the stage that it ends at, and it has been
noted down just if only the values were left to look at. -/
namespace JsonWriter.Settings

open Document (First Occurrence entriesOf)

/-- What the failing stages report. Values are named as they are shown. -/
inductive Reports (location : String) (path : Path) : Stage → Fault → Prop
  | reading (cause : FileFault) : Reports location path (.reading cause) (.file cause path)
  | decoding : Reports location path .decoding (.settings (.notUtf8 location))
  | malformed (cause : SyntaxFault) :
      Reports location path (.scanning .malformed) (.settings (.malformed location cause))
  | givenTwice (name : String) :
      Reports location path (.scanning (.givenTwice name)) (.settings (.givenTwice name))
  | numeralTooLong (digits : Nat) :
      Reports location path (.scanning (.numeralTooLong digits))
        (.value (.numeralTooLongToRead digits))
  | object : Reports location path .object (.settings (.notObject location))
  | version {v shown} : v.display? = some shown →
      Reports location path (.version v) (.settings (.version location shown))
  | names {unknown shown} : (Value.list (unknown.map .text)).display? = some shown →
      Reports location path (.names unknown) (.settings (.unknown location shown))
  | precisionRange {n shown} : (Value.int n).display? = some shown →
      Reports location path (.precision (.int n)) (.settings (.precisionRange shown))
  | precisionType {v shown} : (∀ n, v ≠ .int n) → v.display? = some shown →
      Reports location path (.precision v) (.settings (.precisionType shown))
  | nesting {v shown} : v.display? = some shown →
      Reports location path (.nesting v) (.settings (.nesting shown))

def Stage.noted : Stage → Bool
  | precision _ | nesting _ | done _ => true
  | reading _ | decoding | scanning _ | object | version _ | names _ => false

/-- What a load leaves behind: at most one line more in the log. -/
def Stage.Leaves (stage : Stage) (location : String) (path : Path) (w w' : Workspace) : Prop :=
  if stage.noted then ∃ bytes, w.files.read path = .ok bytes ∧
    w' = { w with log := w.log ++ [.loaded location (Sha256.digest bytes)] }
  else w' = w

inductive Ends (location : String) (path : Path) (w : Workspace) :
    Stage → EStateM.Result Fault Workspace (Settings × String) → Prop
  | refused {stage fault w'} : Reports location path stage fault →
      stage.Leaves location path w w' → Ends location path w stage (.error fault w')
  | loaded {c bytes w'} : w.files.read path = .ok bytes →
      (Stage.done c).Leaves location path w w' →
      Ends location path w (.done c) (.ok (c, Sha256.digest bytes) w')

/-! What the checks refuse. -/

theorem shown_eq {v : Value} {text : String} (h : v.display? = some text) : v.shown = .ok text := by
  rw [Value.shown, h]

theorem isText_eq_false {v : Value} {s : String} (h : v ≠ .text s) : v.isText s = false := by
  rw [Bool.eq_false_iff]
  exact fun htext => h (eq_of_isText htext)

section Checks

variable {location shown : String} {entries : List (Value × Value)} {v : Value}

theorem membersOf_of_not_object (h : ∀ entries, v ≠ .mapping entries) :
    membersOf location v = .error (.settings (.notObject location)) := by
  cases v with
  | mapping entries => exact absurd rfl (h entries)
  | _ => rfl

theorem membersOf_of_version (hgiven : (member? entries "config_version").getD .null = v)
    (hv : v ≠ .text "1") (hshown : v.display? = some shown) :
    membersOf location (.mapping entries) = .error (.settings (.version location shown)) := by
  simp only [membersOf, hgiven, isText_eq_false hv, shown_eq hshown]
  rfl

theorem membersOf_of_names {unknown : List String}
    (hversion : (member? entries "config_version").getD .null = .text "1")
    (hunknown : Text.sorted ((names entries).filter fun n => !knownNames.contains n) = unknown)
    (hne : unknown ≠ []) (hshown : (Value.list (unknown.map .text)).display? = some shown) :
    membersOf location (.mapping entries) = .error (.settings (.unknown location shown)) := by
  have hsome : ((names entries).filter fun name => !knownNames.contains name) ≠ [] := by
    intro hnil
    rw [hnil, Text.sorted, List.mergeSort_nil] at hunknown
    exact hne hunknown.symm
  have hempty := List.isEmpty_eq_false_iff.2 hsome
  simp only [membersOf, hversion, hempty, hunknown, shown_eq hshown]
  rfl

theorem checkPrecision_of_range {n : Int} (h : ¬ValidPrecision (.int n))
    (hshown : (Value.int n).display? = some shown) :
    checkPrecision (.int n) = .error (.settings (.precisionRange shown)) := by
  have hrange : ¬(0 ≤ n ∧ n ≤ 17) := by
    rintro ⟨hpos, hle⟩
    exact h ⟨n.toNat, by omega, by rw [Int.toNat_of_nonneg hpos]⟩
  have hnumeral : Numeral.ofInt? n = some shown := by simpa only [Value.display?] using hshown
  have htext : Scalar.integerText n = .ok shown := by
    unfold Scalar.integerText
    rw [hnumeral]
  simp only [checkPrecision, dif_neg hrange, htext]
  rfl

theorem checkPrecision_of_type (h : ∀ n, v ≠ .int n) (hshown : v.display? = some shown) :
    checkPrecision v = .error (.settings (.precisionType shown)) := by
  unfold checkPrecision
  split
  · exact absurd rfl (h _)
  · rw [shown_eq hshown]
    rfl

theorem checkNesting_of_invalid (h : ¬ValidNesting v) (hshown : v.display? = some shown) :
    checkNesting v = .error (.settings (.nesting shown)) := by
  have hrefuse : checkNesting.refuse v = .error (.settings (.nesting shown)) := by
    rw [checkNesting.refuse, shown_eq hshown]
    rfl
  unfold checkNesting
  split
  · exact absurd (.inl rfl) h
  · rename_i n
    split
    · rename_i hn
      have hnat : Value.int n = .int n.toNat := by rw [Int.toNat_of_nonneg (Int.le_of_lt hn)]
      exact absurd (.inr ⟨n.toNat, by omega, hnat⟩) h
    · exact hrefuse
  · exact hrefuse

end Checks

section Loads

variable {location : String} {path : Path} {w : Workspace} {fault : Fault} {bytes : List UInt8}
  {document : Value} {entries : List (Value × Value)}

theorem check_of_error {α : Type} {x : Except Fault α} (h : x = .error fault) :
    Request.check x w = .error fault w := by
  rw [h]
  rfl

/-- A load that fails before the values are looked at leaves everything as it was. -/
theorem load_of_error (h : (do
      let bytes ← w.files.read path
      let document ← documentOf location bytes
      membersOf location document) = .error fault) : load location path w = .error fault w := by
  unfold load
  rcases bind_eq_error_cases h with hread | ⟨bytes, hread, hnext⟩
  · have hrun : Request.readFile path w = .error fault w := check_of_error hread
    exact bind_error hrun
  · rw [bind_ok (Request.readFile_eq_ok_iff.2 ⟨hread, rfl⟩)]
    rcases bind_eq_error_cases hnext with hdocument | ⟨document, hdocument, hmembers⟩
    · exact bind_error (check_of_error hdocument)
    · rw [bind_ok (Request.check_eq_ok_iff.2 ⟨hdocument, rfl⟩)]
      exact bind_error (check_of_error hmembers)

/-- The values are looked at once the load has been noted down. -/
theorem load_of_entries (hread : w.files.read path = .ok bytes)
    (hdocument : documentOf location bytes = .ok document)
    (hmembers : membersOf location document = .ok entries) :
    load location path w =
      match ofValues ((member? entries "float_precision").getD defaultPrecision)
        ((member? entries "max_nesting").getD .null) with
      | .ok c => .ok (c, Sha256.digest bytes)
          { w with log := w.log ++ [LogLine.loaded location (Sha256.digest bytes)] }
      | .error fault => .error fault
          { w with log := w.log ++ [LogLine.loaded location (Sha256.digest bytes)] } := by
  unfold load
  rw [bind_ok (Request.readFile_eq_ok_iff.2 ⟨hread, rfl⟩),
    bind_ok (Request.check_eq_ok_iff.2 ⟨hdocument, rfl⟩),
    bind_ok (Request.check_eq_ok_iff.2 ⟨hmembers, rfl⟩)]
  cases ofValues ((member? entries "float_precision").getD defaultPrecision)
    ((member? entries "max_nesting").getD .null) <;> rfl

end Loads

/-! What each stage comes to. -/

section Outcomes

variable {location : String} {path : Path} {w : Workspace} {ms : List (String × Value)}
  {stage : Stage} {fault : Fault}

theorem ends_of_error (hnoted : stage.noted = false) (hreports : Reports location path stage fault)
    (h : (do
      let bytes ← w.files.read path
      let document ← documentOf location bytes
      membersOf location document) = .error fault) :
    Ends location path w stage (load location path w) := by
  rw [load_of_error h]
  refine .refused hreports ?_
  rw [Stage.Leaves, hnoted]
  exact rfl

theorem ends_of_decoding {bytes : List UInt8} (hbytes : w.files.read path = .ok bytes)
    (htext : String.fromUTF8? (ByteArray.mk bytes.toArray) = none) :
    Ends location path w .decoding (load location path w) := by
  refine ends_of_error rfl .decoding ?_
  rw [hbytes]
  simp only [bind, Except.bind, documentOf, htext]

theorem ends_of_scanning {text : String} {p : Nat} {o : Occurrence}
    (hdecoded : Decoded w.files path text) (hfirst : First text.toList p o) :
    Ends location path w (.scanning o) (load location path w) := by
  obtain ⟨refusal, hrefused, rfl⟩ := hfirst.refused
  obtain ⟨bytes, hbytes, hdocument⟩ := hdecoded.document location
  rw [hrefused] at hdocument
  have hreports : Reports location path (.scanning refusal.occurrence)
      (refuse location refusal) := by
    cases refusal with
    | malformed cause => exact .malformed cause
    | givenTwice name => exact .givenTwice name
    | numeralTooLong digits => exact .numeralTooLong digits
  refine ends_of_error rfl hreports ?_
  rw [hbytes]
  simp only [bind, Except.bind, hdocument, Except.mapError]

theorem ends_of_membersOf {v : Value} (hnoted : stage.noted = false)
    (hreports : Reports location path stage fault) (hscanned : Scanned w.files path v)
    (h : membersOf location v = .error fault) :
    Ends location path w stage (load location path w) := by
  obtain ⟨text, hdecoded, hread⟩ := hscanned.read
  obtain ⟨bytes, hbytes, hdocument⟩ := hdecoded.document location
  rw [hread] at hdocument
  refine ends_of_error hnoted hreports ?_
  rw [hbytes]
  simp only [bind, Except.bind, hdocument, Except.mapError, h]

theorem ends_of_version {v : Value} (h : Scanned w.files path (.mapping (entriesOf ms)))
    (hgiven : Given ms "config_version" .null v) (hv : v ≠ .text "1") :
    Ends location path w (.version v) (load location path w) := by
  obtain ⟨shown, hshown⟩ := h.given_shown Value.shown_null hgiven
  exact ends_of_membersOf rfl (.version hshown) h
    (membersOf_of_version ((given_iff h.nodup).1 hgiven) hv hshown)

theorem ends_of_names {unknown : List String} (h : Scanned w.files path (.mapping (entriesOf ms)))
    (hversion : Given ms "config_version" .null (.text "1")) (hunknown : Unknown ms unknown)
    (hne : unknown ≠ []) : Ends location path w (.names unknown) (load location path w) := by
  have htexts : ∀ v ∈ unknown.map Value.text, v.Shown := by
    rw [List.forall_mem_map]
    exact fun name _ => Value.shown_text name
  obtain ⟨shown, hshown⟩ := Option.isSome_iff_exists.1 (Value.shown_list_iff.2 htexts)
  exact ends_of_membersOf rfl (.names hshown) h (membersOf_of_names
    ((given_iff h.nodup).1 hversion) ((unknown_sorted h.nodup).unique hunknown) hne hshown)

structure Named (files : FileStore) (path : Path) (ms : List (String × Value)) : Prop where
  scanned : Scanned files path (.mapping (entriesOf ms))
  version : Given ms "config_version" .null (.text "1")
  known : Unknown ms []

theorem Named.load_eq (h : Named w.files path ms) {u v : Value}
    (hu : Given ms "float_precision" (.int 6) u) (hv : Given ms "max_nesting" .null v) :
    ∃ bytes, w.files.read path = .ok bytes ∧ load location path w =
      match ofValues u v with
      | .ok c => .ok (c, Sha256.digest bytes)
          { w with log := w.log ++ [LogLine.loaded location (Sha256.digest bytes)] }
      | .error fault => .error fault
          { w with log := w.log ++ [LogLine.loaded location (Sha256.digest bytes)] } := by
  have hnodup := h.scanned.nodup
  obtain ⟨text, hdecoded, hread⟩ := h.scanned.read
  obtain ⟨bytes, hbytes, hdocument⟩ := hdecoded.document location
  rw [hread] at hdocument
  have hversion : member? (entriesOf ms) "config_version" = some (.text "1") := by
    rw [member?_eq_some_iff hnodup]
    exact h.version.resolve_right fun hleft => nomatch hleft.2
  have hknown : ∀ name ∈ names (entriesOf ms), name ∈ knownNames := by
    rw [names_entriesOf, List.forall_mem_map]
    exact h.known.known
  have hload := load_of_entries hbytes hdocument (membersOf_eq_ok_iff.2 ⟨rfl, hversion, hknown⟩)
  rw [(given_iff hnodup).1 hv] at hload
  have hdefault := (given_iff hnodup).1 hu
  exact ⟨bytes, hbytes, hdefault ▸ hload⟩

theorem ends_of_ofValues {u v : Value} (hnoted : stage.noted = true)
    (hreports : Reports location path stage fault) (h : Named w.files path ms)
    (hu : Given ms "float_precision" (.int 6) u) (hv : Given ms "max_nesting" .null v)
    (hrefused : ofValues u v = .error fault) :
    Ends location path w stage (load location path w) := by
  obtain ⟨bytes, hbytes, hload⟩ := h.load_eq (w := w) hu hv
  rw [hload, hrefused]
  refine .refused hreports ?_
  rw [Stage.Leaves, hnoted]
  exact ⟨bytes, hbytes, rfl⟩

theorem shown_default : (Value.int 6).Shown :=
  Value.shown_signed (t := ['6']) false (.inr ⟨⟨nofun, by simp⟩, by simp⟩) (by decide)

theorem ends_of_precision {v : Value} (h : Named w.files path ms)
    (hv : Given ms "float_precision" (.int 6) v) (hinvalid : ¬ValidPrecision v) :
    Ends location path w (.precision v) (load location path w) := by
  obtain ⟨shown, hshown⟩ := h.scanned.given_shown shown_default hv
  obtain ⟨u, hu⟩ := exists_given_value ms "max_nesting" .null
  by_cases hint : ∃ n, v = .int n
  · obtain ⟨n, rfl⟩ := hint
    refine ends_of_ofValues rfl (.precisionRange hshown) h hv hu ?_
    rw [ofValues, checkPrecision_of_range hinvalid hshown]
    rfl
  · have htype : ∀ n, v ≠ .int n := fun n hn => hint ⟨n, hn⟩
    refine ends_of_ofValues rfl (.precisionType htype hshown) h hv hu ?_
    rw [ofValues, checkPrecision_of_type htype hshown]
    rfl

theorem ends_of_nesting {u v : Value} (h : Named w.files path ms)
    (hu : Given ms "float_precision" (.int 6) u) (hprecision : ValidPrecision u)
    (hv : Given ms "max_nesting" .null v) (hinvalid : ¬ValidNesting v) :
    Ends location path w (.nesting v) (load location path w) := by
  obtain ⟨shown, hshown⟩ := h.scanned.given_shown Value.shown_null hv
  obtain ⟨p, hp, rfl⟩ := hprecision
  have hcheck : checkPrecision (.int p) = .ok ⟨p, hp⟩ := checkPrecision_eq_ok_iff.2 rfl
  refine ends_of_ofValues rfl (.nesting hshown) h hu hv ?_
  rw [ofValues, hcheck]
  simp only [bind, Except.bind, checkNesting_of_invalid hinvalid hshown]

theorem ends_of_settings {c : Settings} (h : Named w.files path ms)
    (hprecision : Given ms "float_precision" (.int 6) (.int c.floatPrecision))
    (hnesting : Given ms "max_nesting" .null (Setting.limitValue c.maxNesting)) :
    Ends location path w (.done c) (load location path w) := by
  obtain ⟨bytes, hbytes, hload⟩ := h.load_eq (w := w) hprecision hnesting
  rw [hload, ofValues_eq_ok_iff.2 ⟨rfl, rfl⟩]
  exact .loaded hbytes ⟨bytes, hbytes, rfl⟩

theorem MembersEnd.ends (h : MembersEnd ms stage)
    (hscanned : Scanned w.files path (.mapping (entriesOf ms))) :
    Ends location path w stage (load location path w) := by
  cases h with
  | version hgiven hv => exact ends_of_version hscanned hgiven hv
  | names hversion hunknown hne => exact ends_of_names hscanned hversion hunknown hne
  | values hversion hknown hvalues =>
      have hnamed : Named w.files path ms := ⟨hscanned, hversion, hknown⟩
      cases hvalues with
      | precision hv hinvalid => exact ends_of_precision hnamed hv hinvalid
      | nesting hu hprecision hv hinvalid => exact ends_of_nesting hnamed hu hprecision hv hinvalid
      | done hprecision hnesting => exact ends_of_settings hnamed hprecision hnesting

end Outcomes

/-- Every load ends at exactly one stage, the first at which its file is at fault, and comes to what
this stage comes to. -/
theorem load_ends (location : String) (path : Path) (w : Workspace) (hnul : path.hasNul = false) :
    (∃! stage, EndsAt w.files path stage) ∧
    ∀ stage, EndsAt w.files path stage → Ends location path w stage (load location path w) := by
  constructor
  · obtain ⟨stage, hstage⟩ := exists_endsAt w.files hnul
    exact ⟨stage, hstage, fun stage' h => h.unique hstage⟩
  · intro stage h
    cases h with
    | reading hread =>
        refine ends_of_error rfl (.reading _) ?_
        rw [hread]
        rfl
    | decoding hread htext => exact ends_of_decoding hread htext
    | scanning hdecoded hfirst => exact ends_of_scanning hdecoded hfirst
    | object hscanned hv =>
        exact ends_of_membersOf rfl .object hscanned (membersOf_of_not_object hv)
    | members hscanned hmembers => exact hmembers.ends hscanned

/-- One file, in which a name is given twice before there is text where none may be. -/
def repeatedName : Workspace :=
  { files := FileStore.empty.set ["a.json"]
      (.file "\x7b\"a\":1,\"a\":2\x7d x".toUTF8.data.toList) }

theorem load_ends_repeatedName : (∃! stage, EndsAt repeatedName.files ⟨0, ["a.json"]⟩ stage) ∧
    Ends "a.json" ⟨0, ["a.json"]⟩ repeatedName (.scanning (.givenTwice "a"))
      (load "a.json" ⟨0, ["a.json"]⟩ repeatedName) := by
  have hopens : FileStore.empty.Opens ⟨0, ["a.json"]⟩ ["a.json"] :=
    ⟨by decide, by decide, .step rfl (by decide) (.here _), by decide⟩
  have hdecoded : Decoded repeatedName.files ⟨0, ["a.json"]⟩ "\x7b\"a\":1,\"a\":2\x7d x" :=
    ⟨_, hopens.read_set, Document.fromUTF8?_toUTF8 _⟩
  have hread : Document.read "\x7b\"a\":1,\"a\":2\x7d x".toList = .error (.givenTwice "a") := by
    cbv
  obtain ⟨p, hfirst⟩ := (Document.read_first _).1 _ hread
  obtain ⟨hstage, hends⟩ := load_ends "a.json" ⟨0, ["a.json"]⟩ repeatedName (by decide)
  exact ⟨hstage, hends _ (.scanning hdecoded hfirst)⟩

end JsonWriter.Settings
