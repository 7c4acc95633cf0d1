import ApiCollection.Collection.Json
import ApiCollection.Conversion.Basic
import ApiCollection.Enhancement.Basic
import ApiCollection.OpenApi.Printer
import ApiCollection.Project.Description
import ApiCollection.Project.Extraction
import ApiCollection.Yaml.Printer

/-!
# Runs

A run finds the description of an interface, makes an artifact of it and writes that to one file.
Everything that can fail, but writing itself, happens before anything is written.

The artifact is a document, or the enhanced collection of a document. The document is the one that
is given, or the one that the sources of a project amount to.
-/

namespace ApiCollection

/-- What a description amounts to. -/
structure Loaded where
  document : Json
  cache : Dto.Cache := {}
  endpoints : Nat
  controllers : Nat := 0
  warnings : List FileWarning := []

namespace Settings

def collection (s : Settings) (document : Json) (cache : Dto.Cache) :
    Except Failure Collection := do
  let converted ← Conversion.convert document {}
  let based := s.baseUrl.elim converted converted.setBaseUrl
  let enhancer : Enhancer := {
    cache := cache, stream := Random.Stream.ofSeed s.seed
    baseUrl := s.baseUrl.getD Enhancement.defaultBaseUrl }
  return (enhancer.enhance based).1

def load (s : Settings) (fs : FileSystem) : Description → Except Failure Loaded
  | .sources root => do
    let x ← ProjectExtraction.of fs s root
    return {
      document := (OpenApi.Document.ofApi x.api).toJson, cache := x.cache
      endpoints := x.api.endpoints.length, controllers := x.controllers, warnings := x.warnings }
  | .remote _ document | .localFile _ document =>
    .ok { document := document, endpoints := Conversion.operationCount document }

end Settings

def OpenApi.TextFormat.print : OpenApi.TextFormat → Json → String
  | .json, j => j.pretty
  | .yaml, j => Yaml.print j

/-- The text of a document for a file, whose extension tells the format. -/
def documentText (path : String) (document : Json) : String :=
  (OpenApi.TextFormat.ofExtension (Path.extension? path)).print document

namespace Settings

/-- The text that a run writes, and the number of requests in it. -/
def artifact (s : Settings) (loaded : Loaded) : Except Failure (String × Nat) :=
  match s.output with
  | .document => .ok (documentText s.outputPath loaded.document, 0)
  | .collection => do
    let c ← s.collection loaded.document loaded.cache
    return (c.toJson.pretty, c.requestCount)

end Settings

structure Report where
  description : String
  outputPath : String
  requests : Nat
  /-- The number of endpoints that were extracted, or of operations of the document. -/
  endpoints : Nat
  controllers : Nat
  warnings : List FileWarning
  deriving Repr

namespace Settings

def generate (s : Settings) (fs : FileSystem) (d : Description) :
    Except Failure (Report × String) := do
  let loaded ← s.load fs d
  let (text, requests) ← s.artifact loaded
  return ({
    description := d.kind, outputPath := s.outputPath, requests := requests
    endpoints := loaded.endpoints, controllers := loaded.controllers, warnings := loaded.warnings },
    text)

def runWith (s : Settings) (fs : FileSystem) (d : Description) :
    FileSystem × Except Failure Report :=
  match s.generate fs d with
  | .error failure => (fs, .error failure)
  | .ok (report, text) =>
    match fs.write s.outputPath text with
    | (fs, none) => (fs, .ok report)
    | (fs, some failure) => (fs, .error failure)

/-- A whole run; without a description there is nothing to report. -/
def run (s : Settings) (network : Network) (fs : FileSystem) :
    FileSystem × Except Failure (Option Report) :=
  match Description.find? network fs s.source with
  | none => (fs, .ok none)
  | some d =>
    let (fs, result) := s.runWith fs d
    (fs, result.map some)

end Settings
end ApiCollection
