import JsonWriter.Fault

/-! Files and directories: what a path leads to, reading a file, and writing one. A request outside a
session works on files, and on what was noted down so far. -/
namespace JsonWriter

inductive Entry where
  | file (bytes : List UInt8)
  | directory
deriving DecidableEq

/-- A place: the names that lead to it from the working directory. Places outside it begin with
`..`, or with `/` if they are counted from the root. -/
abbrev Place := List String

/-- Whether a place is the working directory, one around it, or the root. -/
def Place.isOuter : Place → Bool
  | [] => true
  | ["/"] => true
  | names => names.all (· == "..")

def Place.parent : Place → Place
  | ["/"] => ["/"]
  | place => if Place.isOuter place then place ++ [".."] else place.dropLast

/-- What there is at some places; a place counts as it is listed first. -/
structure FileStore where
  entries : List (Place × Entry)

namespace FileStore

def empty : FileStore := ⟨[]⟩

def get? (store : FileStore) (place : Place) : Option Entry :=
  if Place.isOuter place then some .directory
  else (store.entries.find? (·.1 == place)).map (·.2)

def set (store : FileStore) (place : Place) (entry : Entry) : FileStore :=
  ⟨(place, entry) :: store.entries⟩

def maxNameBytes : Nat := 255

def maxPathBytes : Nat := 4095

/-- Follows one name. Only a directory can be left by a name, also by `..`; the length of the name is
looked at after that. -/
def follow (store : FileStore) (place : Place) (name : String) : Except FileFault Place :=
  match store.get? place with
  | none => .error .missing
  | some (.file _) => .error .notDirectory
  | some .directory =>
    if maxNameBytes < name.utf8ByteSize then .error .nameTooLong
    else .ok (if name == ".." then Place.parent place else place ++ [name])

/-- The place that a path leads to. There need not be anything at it yet. A path that is too long as
a whole is not followed at all. -/
def resolve (store : FileStore) (path : Path) : Except FileFault Place :=
  if maxPathBytes < path.text.utf8ByteSize then .error .nameTooLong
  else path.names.foldlM store.follow (if path.slashes = 0 then [] else ["/"])

def placeOf (store : FileStore) (path : Path) : Except Fault Place :=
  if path.hasNul then .error (.value .nulInPath)
  else match store.resolve path with
    | .ok place => .ok place
    | .error cause => .error (.file cause path)

def read (store : FileStore) (path : Path) : Except Fault (List UInt8) := do
  match store.get? (← store.placeOf path) with
  | some (.file bytes) => return bytes
  | some .directory => throw (.file .isDirectory path)
  | none => throw (.file .missing path)

def write (store : FileStore) (path : Path) (bytes : List UInt8) : Except Fault FileStore := do
  let place ← store.placeOf path
  match store.get? place with
  | some .directory => throw (.file .isDirectory path)
  | _ => return store.set place (.file bytes)

/-- The bytes of the file at a path, if there is one. -/
def file? (store : FileStore) (path : Path) : Option (List UInt8) := (store.read path).toOption

theorem get?_set_same (store : FileStore) {place : Place} (h : Place.isOuter place = false)
    (entry : Entry) : (store.set place entry).get? place = some entry := by
  simp [get?, set, h]

theorem get?_set_of_ne (store : FileStore) {place other : Place} (h : other ≠ place)
    (entry : Entry) : (store.set place entry).get? other = store.get? other := by
  simp [get?, set, h.symm]

end FileStore

structure Workspace where
  files : FileStore
  log : List LogLine := []

/-- A request. What it did before it failed is kept. -/
abbrev Request := EStateM Fault Workspace

namespace Request

def check {α : Type} (x : Except Fault α) : Request α :=
  match x with
  | .ok a => pure a
  | .error fault => throw fault

def note (line : LogLine) : Request Unit := modify fun w => { w with log := w.log ++ [line] }

def readFile (path : Path) : Request (List UInt8) := do check ((← get).files.read path)

def writeFile (path : Path) (bytes : List UInt8) : Request Unit := do
  let files ← check ((← get).files.write path bytes)
  modify fun w => { w with files }

end Request

end JsonWriter
