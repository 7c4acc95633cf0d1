import ApiCollection.Conversion.Request
import ApiCollection.Failure

/-!
# Conversion of documents

A document becomes a collection with one request for each of its operations, in the order of the
document. Requests with the same folder stand together; those without a folder come last.
-/

namespace ApiCollection.Conversion

/-- The keys of operations in the objects of paths. -/
def methodKeys : List String :=
  ["get", "put", "post", "delete", "options", "head", "patch", "trace"]

def pathOperations (path : String) (item : Json) : List Operation :=
  ((item.members?.getD []).filter fun m => methodKeys.contains m.1).map fun (method, content) =>
    ⟨path, method, content, item.get? "parameters"⟩

def operations (document : Json) : List Operation :=
  (document.getMembers "paths").flatMap fun (path, item) => pathOperations path item

def operationCount (document : Json) : Nat :=
  ((document.getMembers "paths").flatMap fun (_, item) =>
    (item.members?.getD []).filter fun m => methodKeys.contains m.1).length

def folder? (grouping : Grouping) (o : Operation) : Option String :=
  match grouping with
  | .tags => (o.content.follow? ["tags", "0"]).bind Json.string?
  | .paths => (pathSegments o.path).head?

/-- Requests in folders, and requests without one. -/
structure Grouped where
  folders : Table (List RequestItem) := []
  loose : List RequestItem := []

def Grouped.add (g : Grouped) (folder : Option String) (r : RequestItem) : Grouped :=
  match folder with
  | some name =>
    { g with folders := g.folders.insert name (((g.folders.get? name).getD []) ++ [r]) }
  | none => { g with loose := g.loose ++ [r] }

/-- The folders and then the requests without one. -/
def Grouped.items (g : Grouped) : List Item :=
  g.folders.map (fun (name, requests) => .folder name none (requests.map .request)) ++
    g.loose.map .request

def withoutSlashes (s : String) : List Char := Text.dropEndWhile (· == '/') s.toList

/-- The address of a server, whose variables take their defaults. -/
def serverAddress? (server : Json) : Option String := do
  let url ← server.getString? "url"
  let filled := (server.getMembers "variables").foldl (fun url (name, meaning) =>
    match meaning.getString? "default" with
    | some value =>
      Text.replacePiece ('\x7b' :: name.toList ++ ['\x7d']) value.toList url
    | none => url) url.toList
  return String.ofList (Text.dropEndWhile (· == '/') filled)

/-- The address of the first server, or the one that scheme, host and base path give. -/
def baseAddress? (document : Json) : Option String :=
  match document.follow? ["servers", "0"] with
  | some server => serverAddress? server
  | none => do
    let host ← document.getString? "host"
    let scheme := ((document.follow? ["schemes", "0"]).bind Json.string?).getD "http"
    let basePath := (document.getString? "basePath").getD ""
    return scheme ++ "://" ++ host ++ String.ofList (withoutSlashes basePath)

/-- The name of the variable that holds the address of the server. -/
def baseUrlKey : String := "baseUrl"

def infoText? (document : Json) (key : String) : Option String :=
  (document.follow? ["info", key]).bind Json.string?

def convert (document : Json) (options : Options) : Except Failure Collection :=
  if ((document.get? "paths").bind Json.members?).isNone then
    .error (.conversion "document has no paths object")
  else
    let grouped := (operations document).foldl (fun g o =>
      g.add (folder? options.grouping o) (requestItem document options o)) ({} : Grouped)
    let empty := Collection.named ((infoText? document "title").getD "API")
    let collection : Collection := {
      info := { empty.info with description := infoText? document "description" }
      items := grouped.items
      sharedVariables := (baseAddress? document).toList.map (.text baseUrlKey) }
    if collection.requests.isEmpty then
      .error (.conversion "no requests could be generated from the document")
    else .ok collection

end ApiCollection.Conversion

namespace ApiCollection

def Collection.setBaseUrl (c : Collection) (url : String) : Collection :=
  c.setVariable Conversion.baseUrlKey url

end ApiCollection
