import ApiCollection.Failure
import ApiCollection.Files.Path
import ApiCollection.Text.Utf8

/-!
# File systems

A file system lists its folders and files by their places, which are names from the root on. Paths
are followed piece by piece through folders, from the root or from the working directory. Writing is
a function to another file system. There are no links, every folder can be listed, and writing fails
only because of what lies at a path or on the way to it.
-/

namespace ApiCollection

open Text

/-- What is at a place. The bytes of a file are missing when it may not be read. -/
inductive Entry where
  | folder
  | file (bytes : Option (List UInt8))
  deriving DecidableEq, Repr

/-- The names from the root to an entry. -/
abbrev Place := List String

/-- Folders and files by place. The root is a folder and is not listed. -/
structure FileSystem where
  entries : List (Place × Entry) := []
  /-- The place where relative paths begin. -/
  working : Place := []
  deriving DecidableEq, Repr

namespace FileSystem

def at? (fs : FileSystem) (place : Place) : Option Entry :=
  if place.isEmpty then some .folder else fs.entries.lookup place

def put (fs : FileSystem) (place : Place) (entry : Entry) : FileSystem :=
  { fs with entries := fs.entries.filter (fun e => e.1 != place) ++ [(place, entry)] }

/-- What was put at a place is there. -/
theorem at?_put_self (fs : FileSystem) {place : Place} (h : place ≠ []) (entry : Entry) :
    (fs.put place entry).at? place = some entry := by
  have hnone : (fs.entries.filter fun e => e.1 != place).lookup place = none := by
    rw [List.lookup_eq_none_iff]
    intro e he
    have hne : e.1 ≠ place := by simpa using (List.mem_filter.mp he).2
    simpa using hne.symm
  simp [at?, put, h, List.lookup_append, hnone]

/-- Putting an entry at a place changes nothing anywhere else. -/
theorem at?_put_of_ne (fs : FileSystem) {place other : Place} (h : other ≠ place) (entry : Entry) :
    (fs.put place entry).at? other = fs.at? other := by
  have hb : (other == place) = false := by simpa using h
  have hkept : (fs.entries.filter fun e => e.1 != place).lookup other =
      fs.entries.lookup other := by
    induction fs.entries with
    | nil => rfl
    | cons e rest ih =>
      obtain ⟨key, value⟩ := e
      by_cases hk : key = place
      · subst hk
        simp [List.lookup_cons, hb, ih]
      · simp [List.lookup_cons, hk, ih]
  simp [at?, put, List.lookup_append, hkept, List.lookup_cons, hb]

/-- The place that a piece of a path leads to from another one, whether or not anything is there.
Only folders lead anywhere. -/
def target? (fs : FileSystem) (place : Place) (piece : Path.Piece) : Option Place :=
  if fs.at? place != some .folder then none
  else if Path.isIdle piece then some place
  else if piece == ['.', '.'] then some place.dropLast
  else some (place ++ [String.ofList piece])

def enter? (fs : FileSystem) (place : Place) (piece : Path.Piece) : Option Place := do
  let next ← fs.target? place piece
  if (fs.at? next).isSome then some next else none

def start (fs : FileSystem) (pieces : List Path.Piece) : Place :=
  match pieces with
  | [] :: _ :: _ => []
  | _ => fs.working

def follow? (fs : FileSystem) (pieces : List Path.Piece) : Option Place :=
  pieces.foldlM fs.enter? (fs.start pieces)

/-- The place of a path. The empty path leads nowhere. -/
def locate? (fs : FileSystem) (path : String) : Option Place :=
  if path.isEmpty then none else fs.follow? (Path.pieces path)

def find? (fs : FileSystem) (path : String) : Option Entry := (fs.locate? path).bind fs.at?

def isFolder (fs : FileSystem) (path : String) : Bool := fs.find? path == some .folder

def isFile (fs : FileSystem) (path : String) : Bool :=
  match fs.find? path with
  | some (.file _) => true
  | _ => false

def bytes? (fs : FileSystem) (path : String) : Option (List UInt8) :=
  match fs.find? path with
  | some (.file bytes) => bytes
  | _ => none

/-- The text of a file. Only a path that leads nowhere says so. -/
def read (fs : FileSystem) (path : String) : Except Failure String :=
  if (fs.find? path).isNone then .error (.projectNotFound path)
  else match (fs.bytes? path).bind utf8Text? with
    | some text => .ok text
    | none => .error .io

/-- The text of a file with replacement characters for what is invalid. -/
def readLossy (fs : FileSystem) (path : String) : Except Failure String :=
  match fs.bytes? path with
  | some bytes => .ok (utf8TextLossy bytes)
  | none => .error .io

/-- The names that lead from a folder to an entry below it. -/
def below? : Place → Place → Option (List String)
  | [], name :: names => some (name :: names)
  | [], [] => none
  | _ :: _, [] => none
  | f :: folder, n :: names => if f = n then below? folder names else none

/-- An entry is below a folder when its place is that of the folder and some names. -/
theorem below?_eq_some_iff {folder place names : List String} :
    below? folder place = some names ↔ names ≠ [] ∧ place = folder ++ names := by
  induction folder generalizing place with
  | nil =>
    cases place with
    | nil => simp [below?, eq_comm]
    | cons n rest => simp [below?]; grind
  | cons f folder ih =>
    cases place with
    | nil => simp [below?]
    | cons n rest =>
      by_cases hf : f = n
      · simp [below?, hf, ih]
      · simp [below?, hf, Ne.symm hf]

/-- The names that lead from a folder to the files below it through the names of a class, in the
order of names. -/
def filesBelow (fs : FileSystem) (folder : Place) (through : String → Bool) : List (List String) :=
  let found := fs.entries.filterMap fun (place, entry) =>
    match entry with
    | .folder => none
    | .file _ => (below? folder place).filter fun names => names.all through
  found.mergeSort fun a b => !Path.namesBefore b a

/-- The files below a folder, written as paths that begin with the path of the folder. -/
def walk (fs : FileSystem) (folder : String) (through : String → Bool) :
    List (List String × String) :=
  match fs.locate? folder with
  | none => []
  | some place =>
    (fs.filesBelow place through).map fun names => (names, Path.joinNames folder names)

def makeFolder (fs : FileSystem) (place : Place) (piece : Path.Piece) :
    FileSystem × Option Place :=
  match fs.target? place piece with
  | none => (fs, none)
  | some next =>
    match fs.at? next with
    | some .folder => (fs, some next)
    | some (.file _) => (fs, none)
    | none => (fs.put next .folder, some next)

/-- Makes the folders that are missing on the way along some pieces. -/
def makeFolders (fs : FileSystem) (place : Place) : List Path.Piece → FileSystem × Option Place
  | [] => (fs, some place)
  | piece :: pieces =>
    match fs.makeFolder place piece with
    | (fs, some next) => fs.makeFolders next pieces
    | (fs, none) => (fs, none)

def writeFile (fs : FileSystem) (path : String) (bytes : List UInt8) :
    FileSystem × Option Failure :=
  let pieces := Path.pieces path
  let name := pieces.getLast?.getD []
  match pieces.dropLast.foldlM fs.enter? (fs.start pieces) with
  | none => (fs, some .io)
  | some folder =>
    if Path.isIdle name || name == ['.', '.'] then (fs, some .io)
    else match fs.target? folder name with
      | none => (fs, some .io)
      | some place =>
        match fs.at? place with
        | some .folder | some (.file none) => (fs, some .io)
        | _ => (fs.put place (.file (some bytes)), none)

/-- Writes a text to a file, and makes the folders that its path needs. -/
def write (fs : FileSystem) (path text : String) : FileSystem × Option Failure :=
  let pieces := Path.dropIdleEnd (Path.pieces path)
  let folders := pieces.dropLast
  if (folders.foldlM fs.enter? (fs.start pieces)).isSome then fs.writeFile path (utf8Bytes text)
  else match fs.makeFolders (fs.start pieces) folders with
    | (fs, some _) => fs.writeFile path (utf8Bytes text)
    | (fs, none) => (fs, some .io)

def ofList (working : Place) (files : List (String × Entry)) : FileSystem :=
  let root := ((List.range working.length).map fun n => (working.take (n + 1), Entry.folder))
  files.foldl (fun fs (path, entry) =>
    let pieces := (Path.dropIdleEnd (Path.pieces path))
    let folders := if entry = .folder then pieces else pieces.dropLast
    match fs.makeFolders working folders, pieces.getLast? with
    | (fs, some place), some name =>
      if entry = .folder then fs else fs.put (place ++ [String.ofList name]) entry
    | (fs, _), _ => fs) { entries := root, working := working }

end FileSystem
end ApiCollection
