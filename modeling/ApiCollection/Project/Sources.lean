import ApiCollection.Dto.Source
import ApiCollection.Files.FileSystem
import ApiCollection.Pattern.Glob

/-!
# Source files of a project

Controllers are looked for in tiers, each a folder of the project and a class of file names. The
first tier that finds a file is taken; its files are filtered by their paths, and those whose text
marks a controller stay.

Files whose names or folders tell that they hold model classes are read into a cache, in the order
of their paths. What cannot be read, or declares no class, is left out.
-/

namespace ApiCollection

open Text

namespace Dto

def sourceFolder : String := "src/main/java"

def fileEndings : List String := ["DTO.java", "Dto.java", "Request.java", "Response.java"]

def modelFolders : List String := ["model", "entity", "domain"]

/-- Whether names below the folder of sources lead to a file with a model class. -/
def isCandidate (names : List String) : Bool :=
  let name := (names.getLast?.getD "").toList
  endsWith ".java".toList name &&
    (fileEndings.any (fun ending => endsWith ending.toList name) ||
      names.dropLast.getLast?.any modelFolders.contains)

/-- The files of a project that may hold model classes. -/
def candidates (fs : FileSystem) (root : String) : List String :=
  ((fs.walk (Path.join root sourceFolder) fun _ => true).filter
    fun (names, _) => isCandidate names).map Prod.snd

def ofFile? (fs : FileSystem) (path : String) : Option Dto :=
  match fs.read path with
  | .ok text => ofSource? text.toList (some path)
  | .error _ => none

/-- The model classes of a project; a project that is no folder has none. -/
def Cache.ofProject (fs : FileSystem) (root : String) : Cache :=
  if fs.isFolder root then .ofList ((candidates fs root).filterMap (ofFile? fs)) else {}

end Dto

/-- A folder of a project and the names of the files that count in it. -/
structure Tier where
  folder : String
  ending : String
  label : String
  deriving DecidableEq, Repr

def tiers : List Tier := [
  ⟨"src/main/java", "Controller.java", "src/main/java/**/*Controller.java"⟩,
  ⟨"src/main/java", "RestController.java", "src/main/java/**/*RestController.java"⟩,
  ⟨"src", ".java", "src/**/*.java"⟩]

/-- Whether a name is passed over: hidden entries and build output are. -/
def isPassedOver (name : String) : Bool :=
  startsWith ['.'] name.toList || name == "target" || name == "build"

/-- Whether a text marks a controller of an interface. -/
def isController (text : String) : Bool :=
  let mentions (mark : String) : Bool := occursIn mark.toList text.toList
  mentions "@RestController" ||
    (mentions "@Controller" && (mentions "@ResponseBody" || mentions "@RequestMapping"))

def Tier.files (tier : Tier) (fs : FileSystem) (root : String) : List String :=
  let found := fs.walk (Path.join root tier.folder) (!isPassedOver ·)
  (found.filter fun (names, _) =>
    endsWith tier.ending.toList (names.getLast?.getD "").toList).map Prod.snd

structure Scan where
  controllers : List String
  /-- The number of files of the tier. -/
  discovered : Nat
  tier : String
  /-- Files that could not be read. -/
  warnings : List String
  deriving DecidableEq, Repr

/-- What the system says about a file that may not be read. -/
def accessDenied : String := "Permission denied (os error 13)"

namespace Scan

/-- The files of the first tier that has any, with its label. -/
def discover (fs : FileSystem) (root : String) : Option (String × List String) :=
  tiers.findSome? fun tier =>
    let files := tier.files fs root
    if files.isEmpty then none else some (tier.label, files)

def marksController (fs : FileSystem) (path : String) : Bool :=
  match fs.readLossy path with
  | .ok text => isController text
  | .error _ => false

def warning? (fs : FileSystem) (path : String) : Option String :=
  match fs.readLossy path with
  | .ok _ => none
  | .error _ => some ("Failed to read " ++ path ++ ": IO error: " ++ accessDenied)

def of (fs : FileSystem) (root : String) (filter : Pattern.Filter) : Except Failure Scan :=
  if !fs.isFolder root then .error (.projectNotFound root)
  else match discover fs root with
    | none => .error (.noControllers root)
    | some (tier, files) =>
      let kept := filter.apply id files
      let controllers := kept.filter (marksController fs)
      if controllers.isEmpty then .error (.noControllers root)
      else .ok {
        controllers := controllers, discovered := files.length, tier := tier
        warnings := kept.filterMap (warning? fs) }

end Scan
end ApiCollection
