import ApiCollection.Api.Basic
import ApiCollection.Project.Sources
import ApiCollection.Project.Settings
import ApiCollection.Project.Workers

/-!
# Extraction from the sources of a project

Every controller is extracted by itself, with examples from a stream whose seed depends on its path
in the project. The results are put together in the order of paths, whatever the order in which
they arrive. A file that cannot be read is left out with a warning.
-/

namespace ApiCollection

open Text

/-- A hash of bytes: every byte is mixed in by an exclusive or, and the product with a prime spreads
it. -/
def byteHash (bytes : List UInt8) : UInt64 :=
  bytes.foldl (fun hash b => (hash ^^^ b.toUInt64) * 0x100000001b3) 0xcbf29ce484222325

/-- The seed of a file: the seed of the run mixed with a hash of the path in the project. -/
def fileSeed (seed : UInt64) (path root : String) : UInt64 :=
  let place := replaceChar '\\' '/' (Path.relativeTo root path).toList
  seed ^^^ byteHash (utf8Bytes (String.ofList place))

/-- A file that was left out. -/
structure FileWarning where
  path : String
  message : String
  deriving DecidableEq, Repr

namespace FileWarning

def failed (path : String) (failure : Failure) : FileWarning := ⟨path, failure.message?.getD ""⟩

/-- The warning about a file that no worker has taken. -/
def unprocessed (path : String) : FileWarning :=
  ⟨path, path ++ " was not processed: no extraction worker left"⟩

def text (w : FileWarning) : String := w.path ++ ": " ++ w.message

def sort (warnings : List FileWarning) : List FileWarning :=
  warnings.mergeSort fun a b => !Path.isBefore b.path a.path

end FileWarning

/-- What is said about a failure to read a file as strict text. -/
def readReason (fs : FileSystem) (path : String) : Failure → String
  | .io => "IO error: " ++
    if fs.isFolder path then "Is a directory (os error 21)"
    else if (fs.bytes? path).isNone then accessDenied
    else "stream did not contain valid UTF-8"
  | failure => failure.message?.getD ""

def SourceUnit.ofFile (fs : FileSystem) (path : String) : Except Failure SourceUnit :=
  match fs.read path with
  | .ok text => .ok (SourceUnit.of text)
  | .error failure => .error (.unreadable path (readReason fs path failure))

def extractFile (fs : FileSystem) (s : Settings) (cache : Dto.Cache) (root path : String) :
    Except Failure Extraction :=
  (SourceUnit.ofFile fs path).map fun unit =>
    unit.extract cache (fileSeed s.seed path root) s.listSize

/-- What was extracted from a file of a project, or why nothing was. -/
abbrev FileResult := String × Except Failure Extraction

/-- Puts an extraction at the place of its path among others in the order of paths. It takes the
place of one with the same path. -/
def placeExtraction (path : String) (x : Extraction) :
    List (String × Extraction) → List (String × Extraction)
  | [] => [(path, x)]
  | (other, y) :: rest =>
    if Path.isBefore path other then (path, x) :: (other, y) :: rest
    else if Path.isBefore other path then (other, y) :: placeExtraction path x rest
    else (other, x) :: rest

/-- The results that have arrived. -/
structure Harvest where
  /-- The extractions in the order of their paths. -/
  extracted : List (String × Extraction) := []
  /-- The warnings in the order in which they arose. -/
  warnings : List FileWarning := []

namespace Harvest

def receive (h : Harvest) : FileResult → Harvest
  | (path, .ok x) => { h with extracted := placeExtraction path x h.extracted }
  | (path, .error failure) => { h with warnings := h.warnings ++ [.failed path failure] }

def of (results : List FileResult) : Harvest := results.foldl receive {}

end Harvest

/-- The interface that a project describes. -/
structure ProjectExtraction where
  api : Api
  cache : Dto.Cache
  controllers : Nat
  warnings : List FileWarning

namespace ProjectExtraction

/-- Puts extractions together, the first one first. -/
def gather (baseUrl : Option String) (extracted : List (String × Extraction)) : Api :=
  let start : Api := match baseUrl with
    | some url => Api.setServer {} url
    | none => {}
  (extracted.map Prod.snd).foldl Api.merge start

/-- Puts together the results that have arrived, with warnings about the files that are left. -/
def ofResults (baseUrl : Option String) (cache : Dto.Cache) (controllers : Nat)
    (received : List FileResult) (leftover : List String) : ProjectExtraction :=
  let harvest := Harvest.of received
  { api := gather baseUrl harvest.extracted
    cache := cache
    controllers := controllers
    warnings := FileWarning.sort (harvest.warnings ++ leftover.map .unprocessed) }

def ofPool (baseUrl : Option String) (cache : Dto.Cache) (controllers : Nat)
    (p : Pool String (Except Failure Extraction)) : ProjectExtraction :=
  ofResults baseUrl cache controllers p.received p.queue

def of (fs : FileSystem) (s : Settings) (root : String) : Except Failure ProjectExtraction := do
  let cache := Dto.Cache.ofProject fs root
  let scan ← Scan.of fs root s.filter
  let results := Pool.inOrder (extractFile fs s cache root) scan.controllers
  return ofResults s.baseUrl cache scan.controllers.length results []

end ProjectExtraction
end ApiCollection
