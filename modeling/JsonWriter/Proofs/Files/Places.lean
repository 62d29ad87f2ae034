import JsonWriter.Files.Store

/-! Where a path leads, and what a written file changes. No way goes through a file, so a way stays
as it was when a file is written. -/
namespace JsonWriter

def Path.origin (path : Path) : Place := if path.slashes = 0 then [] else ["/"]

def Place.next (place : Place) (name : String) : Place :=
  if name = ".." then place.parent else place ++ [name]

namespace FileStore

/-- Names lead from one place to another. Each is followed from a directory and is short enough;
there need not be anything where the last one leads. -/
inductive Leads (store : FileStore) : Place → List String → Place → Prop
  | here (place : Place) : Leads store place [] place
  | step {place target name names} : store.get? place = some .directory →
      name.utf8ByteSize ≤ maxNameBytes → Leads store (place.next name) names target →
      Leads store place (name :: names) target

/-- A path can be opened for writing at a place: it leads there, and there is no directory. -/
structure Opens (store : FileStore) (path : Path) (place : Place) : Prop where
  noNul : path.hasNul = false
  short : path.text.utf8ByteSize ≤ maxPathBytes
  leads : store.Leads path.origin path.names place
  free : store.get? place ≠ some .directory

variable {store store' : FileStore} {path other : Path} {place target : Place}
  {bytes : List UInt8}

theorem follow_eq_ok_iff {name : String} : store.follow place name = .ok target ↔
    store.get? place = some .directory ∧ name.utf8ByteSize ≤ maxNameBytes ∧
      place.next name = target := by
  unfold follow Place.next
  cases hentry : store.get? place with
  | none => simp
  | some entry =>
      cases entry with
      | file bytes => simp
      | directory =>
          by_cases hshort : name.utf8ByteSize ≤ maxNameBytes
          · simp [hshort, Nat.not_lt.2 hshort]
          · simp [hshort, Nat.not_le.1 hshort]

theorem leads_iff {names : List String} :
    names.foldlM store.follow place = .ok target ↔ store.Leads place names target := by
  induction names generalizing place with
  | nil =>
      constructor
      · intro h
        cases h
        exact .here _
      · intro h
        cases h
        rfl
  | cons name names ih =>
      rw [List.foldlM_cons]
      constructor
      · intro h
        cases hfollow : store.follow place name with
        | error cause =>
            rw [hfollow] at h
            cases h
        | ok next =>
            rw [hfollow] at h
            obtain ⟨hdir, hshort, rfl⟩ := follow_eq_ok_iff.1 hfollow
            exact .step hdir hshort (ih.1 h)
      · intro h
        cases h with
        | step hdir hshort hrest =>
            rw [follow_eq_ok_iff.2 ⟨hdir, hshort, rfl⟩]
            exact ih.2 hrest

theorem placeOf_eq_ok_iff : store.placeOf path = .ok place ↔
    path.hasNul = false ∧ path.text.utf8ByteSize ≤ maxPathBytes ∧
      store.Leads path.origin path.names place := by
  unfold placeOf resolve
  cases hnul : path.hasNul with
  | true => simp
  | false =>
      by_cases hshort : path.text.utf8ByteSize ≤ maxPathBytes
      · rw [← leads_iff]
        simp only [Bool.false_eq_true, if_false, if_neg (Nat.not_lt.2 hshort), hshort, true_and,
          Path.origin]
        cases path.names.foldlM store.follow (if path.slashes = 0 then [] else ["/"]) <;> simp
      · simp [hshort, Nat.not_le.1 hshort]

theorem opens_iff : store.Opens path place ↔
    store.placeOf path = .ok place ∧ store.get? place ≠ some .directory := by
  rw [placeOf_eq_ok_iff]
  constructor
  · intro h
    exact ⟨⟨h.noNul, h.short, h.leads⟩, h.free⟩
  · rintro ⟨⟨hnul, hshort, hleads⟩, hfree⟩
    exact ⟨hnul, hshort, hleads, hfree⟩

theorem read_eq_ok_iff : store.read path = .ok bytes ↔
    ∃ place, store.placeOf path = .ok place ∧ store.get? place = some (.file bytes) := by
  unfold read
  cases hplace : store.placeOf path with
  | error fault => exact ⟨nofun, nofun⟩
  | ok place =>
      simp only [bind, Except.bind, Except.ok.injEq, exists_eq_left']
      cases store.get? place with
      | none => exact ⟨nofun, nofun⟩
      | some entry =>
          cases entry with
          | file bytes' => exact ⟨fun h => by cases h; rfl, fun h => by cases h; rfl⟩
          | directory => exact ⟨nofun, nofun⟩

/-- A file is written where the path opens, and there alone. -/
theorem Opens.write (h : store.Opens path place) (bytes : List UInt8) :
    store.write path bytes = .ok (store.set place (.file bytes)) := by
  obtain ⟨hplace, hfree⟩ := opens_iff.1 h
  unfold FileStore.write
  rw [hplace]
  simp only [bind, Except.bind]
  cases hentry : store.get? place with
  | none => rfl
  | some entry =>
      cases entry with
      | file found => rfl
      | directory => exact absurd hentry hfree

/-- A path that does not open is refused with what stands in its way. -/
theorem write_of_not_opens (h : ∀ place, ¬store.Opens path place) (bytes : List UInt8) :
    ∃ fault, store.write path bytes = .error fault ∧
      (fault = .value .nulInPath ∨ ∃ cause, fault = .file cause path) := by
  unfold FileStore.write
  cases hplace : store.placeOf path with
  | error fault =>
      refine ⟨fault, rfl, ?_⟩
      unfold placeOf at hplace
      split at hplace
      · cases hplace
        exact .inl rfl
      · split at hplace
        · cases hplace
        · cases hplace
          exact .inr ⟨_, rfl⟩
  | ok place =>
      have hdir : store.get? place = some .directory :=
        Decidable.byContradiction fun hfree => h place (opens_iff.2 ⟨hplace, hfree⟩)
      refine ⟨.file .isDirectory path, ?_, .inr ⟨_, rfl⟩⟩
      simp only [bind, Except.bind, hdir]
      rfl

section Written

variable (hfree : store.get? place ≠ some .directory)

include hfree

theorem isOuter_of_free : place.isOuter = false := by
  refine Bool.eq_false_iff.2 fun houter => hfree ?_
  unfold get?
  rw [if_pos houter]

theorem get?_set_file : (store.set place (.file bytes)).get? place = some (.file bytes) :=
  get?_set_same store (isOuter_of_free hfree) _

theorem directory_set_iff : (store.set place (.file bytes)).get? target = some .directory ↔
    store.get? target = some .directory := by
  by_cases htarget : target = place
  · rw [htarget, get?_set_file hfree]
    exact ⟨nofun, fun hdir => absurd hdir hfree⟩
  · rw [get?_set_of_ne store htarget]

theorem leads_set_iff {start : Place} {names : List String} :
    (store.set place (.file bytes)).Leads start names target ↔
      store.Leads start names target := by
  constructor
  · intro h
    induction h with
    | here place => exact .here place
    | step hdir hshort _ ih => exact .step ((directory_set_iff hfree).1 hdir) hshort ih
  · intro h
    induction h with
    | here place => exact .here place
    | step hdir hshort _ ih => exact .step ((directory_set_iff hfree).2 hdir) hshort ih

theorem placeOf_set_iff : (store.set place (.file bytes)).placeOf path = .ok target ↔
    store.placeOf path = .ok target := by
  rw [placeOf_eq_ok_iff, placeOf_eq_ok_iff, leads_set_iff hfree]

end Written

theorem Opens.read_set (h : store.Opens path place) :
    (store.set place (.file bytes)).read path = .ok bytes := by
  obtain ⟨hplace, hfree⟩ := opens_iff.1 h
  exact read_eq_ok_iff.2 ⟨place, (placeOf_set_iff hfree).2 hplace, get?_set_file hfree⟩

theorem file?_set_of_ne (hfree : store.get? place ≠ some .directory)
    (hother : store.placeOf other ≠ .ok place) :
    (store.set place (.file bytes)).file? other = store.file? other := by
  have hread : ∀ found, (store.set place (.file bytes)).read other = .ok found ↔
      store.read other = .ok found := by
    intro found
    rw [read_eq_ok_iff, read_eq_ok_iff]
    refine exists_congr fun target => ?_
    rw [placeOf_set_iff hfree]
    refine and_congr_right fun htarget => ?_
    have hne : target ≠ place := fun heq => hother (heq ▸ htarget)
    rw [get?_set_of_ne store hne]
  unfold file?
  cases hbefore : store.read other with
  | ok found => rw [(hread found).2 hbefore]
  | error fault =>
      cases hafter : (store.set place (.file bytes)).read other with
      | ok found =>
          rw [(hread found).1 hafter] at hbefore
          cases hbefore
      | error fault' => rfl

end FileStore
end JsonWriter
