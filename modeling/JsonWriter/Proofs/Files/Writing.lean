import JsonWriter.Proofs.Files.Places
import JsonWriter.Proofs.Results
import JsonWriter.Render

/-! Documents written to files. Nothing is done to a file before the whole text is there, so a
request that fails leaves all files as they were. -/
namespace JsonWriter.Request

variable {α β : Type}

section Runs

variable {w w' : Workspace}

theorem check_eq_ok_iff {x : Except Fault α} {a : α} :
    check x w = .ok a w' ↔ x = .ok a ∧ w = w' := by
  constructor
  · intro h
    cases x with
    | error fault => cases h
    | ok b =>
        cases h
        exact ⟨rfl, rfl⟩
  · rintro ⟨rfl, rfl⟩
    rfl

theorem readFile_eq_ok_iff {path : Path} {bytes : List UInt8} :
    readFile path w = .ok bytes w' ↔ w.files.read path = .ok bytes ∧ w = w' :=
  check_eq_ok_iff

end Runs

def KeepsFiles (request : Request α) : Prop :=
  ∀ w, match request w with
    | .ok _ w' | .error _ w' => w'.files = w.files

theorem KeepsFiles.pure (a : α) : KeepsFiles (Pure.pure a) := fun _ => rfl

theorem KeepsFiles.throw (fault : Fault) : KeepsFiles (throw fault : Request α) := fun _ => rfl

theorem KeepsFiles.bind {request : Request α} {rest : α → Request β} (h : KeepsFiles request)
    (hrest : ∀ a, KeepsFiles (rest a)) : KeepsFiles (request >>= rest) := by
  intro w
  have hfirst := h w
  cases hrun : request w with
  | error fault w₁ =>
      rw [hrun] at hfirst
      rw [bind_error hrun]
      exact hfirst
  | ok a w₁ =>
      rw [hrun] at hfirst
      have hkept : w₁.files = w.files := hfirst
      rw [bind_ok hrun, ← hkept]
      exact hrest a w₁

theorem KeepsFiles.check (x : Except Fault α) : KeepsFiles (check x) := by
  cases x with
  | ok a => exact .pure a
  | error fault => exact .throw fault

theorem KeepsFiles.note (line : LogLine) : KeepsFiles (note line) := fun _ => rfl

theorem KeepsFiles.readFile (path : Path) : KeepsFiles (readFile path) :=
  fun w => KeepsFiles.check (w.files.read path) w

theorem KeepsFiles.load (location : String) (path : Path) :
    KeepsFiles (Settings.load location path) := by
  unfold Settings.load
  refine (KeepsFiles.readFile path).bind fun bytes => ?_
  refine (KeepsFiles.check _).bind fun document => ?_
  refine (KeepsFiles.check _).bind fun entries => ?_
  refine (KeepsFiles.note _).bind fun _ => ?_
  exact (KeepsFiles.check _).bind fun settings => .pure _

theorem KeepsFiles.resolve (source : Value) (fallback : Settings) :
    KeepsFiles (Settings.resolve source fallback) := by
  unfold Settings.resolve
  split
  · exact .pure fallback
  · exact .pure _
  · split
    · exact (KeepsFiles.load _ _).bind fun found => .pure _
    · exact .throw _

theorem KeepsFiles.session (settings : Settings) (steps : Write TextBuffer Unit) :
    KeepsFiles (session settings steps) := by
  intro w
  unfold Request.session
  cases steps (Session.start settings {}) <;> rfl

theorem KeepsFiles.render (v source : Value) (sortKeys : Bool) :
    KeepsFiles (render v source sortKeys) := by
  unfold Request.render
  refine (KeepsFiles.resolve source _).bind fun settings => ?_
  refine (KeepsFiles.session settings _).bind fun s => ?_
  split
  · exact (KeepsFiles.throw _).bind fun _ => .pure _
  · exact .pure _

theorem writeDocument_of_error {path : Path} {v source : Value} {sortKeys : Bool}
    {w w₁ : Workspace} {fault : Fault} (h : render v source sortKeys w = .error fault w₁) :
    writeDocument path v source sortKeys w = .error fault w₁ := bind_error h

theorem writeDocument_of_ok {path : Path} {v source : Value} {sortKeys : Bool}
    {w w₁ : Workspace} {text : String} (h : render v source sortKeys w = .ok text w₁) :
    writeDocument path v source sortKeys w = writeFile path text.toUTF8.data.toList w₁ := bind_ok h

theorem writeFile_eq (path : Path) (bytes : List UInt8) (w : Workspace) :
    writeFile path bytes w = (check (w.files.write path bytes) >>= fun files =>
      modify fun w => { w with files } : Request Unit) w := rfl

theorem writeFile_of_error {path : Path} {bytes : List UInt8} {w : Workspace} {fault : Fault}
    (h : w.files.write path bytes = .error fault) :
    writeFile path bytes w = .error fault w := by
  have hcheck : check (w.files.write path bytes) w = .error fault w := by
    rw [h]
    rfl
  rw [writeFile_eq, bind_error hcheck]

theorem writeFile_of_ok {path : Path} {bytes : List UInt8} {w : Workspace} {files : FileStore}
    (h : w.files.write path bytes = .ok files) :
    writeFile path bytes w = .ok () { w with files } := by
  rw [writeFile_eq, bind_ok (check_eq_ok_iff.2 ⟨h, rfl⟩)]
  rfl

/-- A document is written whole or not at all. Where there is no text the request fails as the
rendering does; where the path does not open it fails with the text at hand; else the path
leads to a file of just that text. All other files stay as they were, whatever the settings are
taken from. -/
theorem writeDocument_outcome (path : Path) (v source : Value) (sortKeys : Bool) (w : Workspace) :
    match render v source sortKeys w with
    | .error fault w₁ =>
      writeDocument path v source sortKeys w = .error fault w₁ ∧ w₁.files = w.files
    | .ok text w₁ => w₁.files = w.files ∧
      ((∀ place, ¬w.files.Opens path place) →
        ∃ fault, writeDocument path v source sortKeys w = .error fault w₁ ∧
          (fault = .value .nulInPath ∨ ∃ cause, fault = .file cause path)) ∧
      ∀ place, w.files.Opens path place → ∃ w₂,
        writeDocument path v source sortKeys w = .ok () w₂ ∧ w₂.log = w₁.log ∧
        w₂.files.read path = .ok text.toUTF8.data.toList ∧
        (∀ other, other ≠ place → w₂.files.get? other = w.files.get? other) ∧
        ∀ other, w.files.placeOf other ≠ .ok place →
          w₂.files.file? other = w.files.file? other := by
  have hkeeps := KeepsFiles.render v source sortKeys w
  cases hrender : render v source sortKeys w with
  | error fault w₁ =>
      rw [hrender] at hkeeps
      exact ⟨writeDocument_of_error hrender, hkeeps⟩
  | ok text w₁ =>
      rw [hrender] at hkeeps
      have hfiles : w₁.files = w.files := hkeeps
      refine ⟨hfiles, ?_, ?_⟩
      · intro hclosed
        obtain ⟨fault, hwrite, hfault⟩ :=
          FileStore.write_of_not_opens hclosed text.toUTF8.data.toList
        rw [← hfiles] at hwrite
        refine ⟨fault, ?_, hfault⟩
        rw [writeDocument_of_ok hrender, writeFile_of_error hwrite]
      · intro place hopens
        have hwrite := hopens.write text.toUTF8.data.toList
        rw [← hfiles] at hwrite
        refine ⟨_, (writeDocument_of_ok hrender).trans (writeFile_of_ok hwrite), rfl, ?_, ?_, ?_⟩
        · rw [hfiles]
          exact hopens.read_set
        · intro other hne
          rw [hfiles]
          exact FileStore.get?_set_of_ne _ hne _
        · intro other hne
          rw [hfiles]
          exact FileStore.file?_set_of_ne hopens.free hne

end JsonWriter.Request
