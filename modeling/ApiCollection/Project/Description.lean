import ApiCollection.OpenApi.Reading
import ApiCollection.Project.Sources
import ApiCollection.Project.Settings

/-!
# Descriptions of an interface

The description of an interface is a remote document, a document in the project or the sources of
the project. The first one that can be used is taken.
-/

namespace ApiCollection

open Text

structure Reply where
  status : Nat
  contentType : Option String
  body : List UInt8
  deriving DecidableEq, Repr

/-- The text of a reply, without a byte order mark. -/
def Reply.text (r : Reply) : String :=
  let text := utf8TextLossy r.body
  match text.toList with
  | '\uFEFF' :: rest => String.ofList rest
  | _ => text

/-- What the servers of the network answer; a server may not answer at all. -/
abbrev Network := String → Option Reply

namespace OpenApi

/-- The names of documents in a project, the preferred ones first. -/
def fileNames : List String :=
  ["openapi.json", "openapi.yaml", "openapi.yml", "swagger.json", "swagger.yaml", "swagger.yml"]

/-- Fetches a document. Replies with a status of errors carry none. -/
def fetch (network : Network) (url : String) : Except Failure Json := do
  let some reply := network url | .error .fetch
  if 400 ≤ reply.status && reply.status < 600 then .error .fetch
  let format := (reply.contentType.map Format.ofMediaType).getD .unknown
  match parse? format reply.text with
  | some document => return document
  | none => .error .fetch

def load (fs : FileSystem) (path : String) : Except Failure Json := do
  let text ← (fs.read path).mapError fun
    | .projectNotFound p => .projectNotFound p
    | _ => .fetch
  match parse? (.ofExtension (Path.extension? path)) text with
  | some document => return document
  | none => .error .fetch

/-- Loads a document from wherever a text points. -/
def obtain (network : Network) (fs : FileSystem) (source : String) : Except Failure Json :=
  match ProjectSource.ofText source with
  | .url address => fetch network address
  | .path file => load fs file

def usable? (found : Except Failure Json) : Option Json :=
  match found with
  | .ok document => if (defect? document).isNone then some document else none
  | .error _ => none

end OpenApi

/-- How an interface is described. -/
inductive Description where
  | remote (url : String) (document : Json)
  | localFile (path : String) (document : Json)
  | sources (root : String)
  deriving Repr

namespace Description

def kind : Description → String
  | .remote _ _ => "openapi-remote"
  | .localFile _ _ => "openapi-local"
  | .sources _ => "source"

def label : Description → String
  | .remote url _ => "OpenAPI document at " ++ url
  | .localFile file _ => "OpenAPI document " ++ file
  | .sources root => "Spring sources in " ++ root

def document? : Description → Option Json
  | .remote _ document | .localFile _ document => some document
  | .sources _ => none

def ofFile? (fs : FileSystem) (path : String) : Option Description :=
  if fs.isFile path then (OpenApi.usable? (OpenApi.load fs path)).map (.localFile path) else none

def ofDocuments? (fs : FileSystem) (root : String) : Option Description :=
  OpenApi.fileNames.findSome? fun name => ofFile? fs (Path.join root name)

def ofSources? (fs : FileSystem) (root : String) : Option Description :=
  match Scan.of fs root {} with
  | .ok _ => some (.sources root)
  | .error _ => none

def find? (network : Network) (fs : FileSystem) : ProjectSource → Option Description
  | .url address => (OpenApi.usable? (OpenApi.fetch network address)).map (.remote address)
  | .path root =>
    if fs.isFile root then ofFile? fs root else (ofDocuments? fs root).or (ofSources? fs root)

end Description
end ApiCollection
