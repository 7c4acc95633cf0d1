import ApiCollection.Api.Basic

/-!
# Interface documents

A document lays out the operations of an interface by path and method. Of several operations with
one path and method the last one stays; the position of a path is where it is met first.

In JSON the members of a document stand in a fixed order. What is empty or absent is left out,
except for the paths and the responses; an operation without responses gets a plain successful one.
-/

namespace ApiCollection.OpenApi

open Json (nonEmpty? present)

/-- The operations of one path: at most one for each method. -/
abbrev PathItem := HttpMethod → Option (Endpoint Json)

namespace PathItem

def empty : PathItem := fun _ => none

def set (item : PathItem) (e : Endpoint Json) : PathItem := fun method =>
  if method = e.method then some e else item method

/-- The operations with their methods, in the order of the methods. -/
def operations (item : PathItem) : List (HttpMethod × Endpoint Json) :=
  HttpMethod.all.filterMap fun method => (item method).map fun e => (method, e)

@[simp] theorem set_same (item : PathItem) (e : Endpoint Json) :
    item.set e e.method = some e := by
  simp [set]

theorem set_other (item : PathItem) (e : Endpoint Json) {method : HttpMethod}
    (h : method ≠ e.method) : item.set e method = item method := by
  simp [set, h]

end PathItem

structure Document where
  info : ApiInfo
  servers : List Server
  paths : Table PathItem
  schemas : Table Schema
  /-- How many operations were replaced by later ones. -/
  overwritten : Nat

namespace Document

def operation? (d : Document) (path : String) (method : HttpMethod) : Option (Endpoint Json) :=
  (d.paths.get? path).bind (· method)

/-- Adds an operation, in the place of one with the same path and method. -/
def add (d : Document) (e : Endpoint Json) : Document :=
  let item := (d.paths.get? e.path).getD .empty
  let replaced := if (item e.method).isSome then 1 else 0
  { d with
    paths := d.paths.insert e.path (item.set e), overwritten := d.overwritten + replaced }

def ofApi (api : Api) : Document :=
  let empty : Document := ⟨api.info, api.servers, [], api.schemas, 0⟩
  api.endpoints.foldl add empty

def operationCount (d : Document) : Nat :=
  (d.paths.flatMap fun (_, item) => item.operations).length

/-- Looking up behind an addition. -/
theorem operation?_add (d : Document) (e : Endpoint Json) (path : String) (method : HttpMethod) :
    (d.add e).operation? path method =
      if path = e.path ∧ method = e.method then some e else d.operation? path method := by
  unfold operation? add
  rw [Table.get?_insert]
  by_cases hp : path = e.path
  · subst hp
    by_cases hm : method = e.method
    · simp [hm]
    · cases h : d.paths.get? e.path <;> simp [hm, PathItem.set_other, PathItem.empty]
  · simp [hp]

end Document

def formatVersion : String := "3.0.0"

def contentJson (contentType : String) (schema : Option Schema) (example? : Option Json) : Json :=
  .object [(contentType, .object (present [("schema", schema.map Schema.toJson),
    ("example", example?)]))]

def parameterJson (location : Location) (p : Parameter Json) : Json :=
  .object (present [
    ("name", some (.string p.name)),
    ("in", some (.string location.name)),
    ("required", some (.bool p.required)),
    ("schema", some p.schema.toJson),
    ("example", p.example?),
    ("description", p.description.map .string)])

def bodyJson (b : Body Json) : Json :=
  .object [("required", .bool b.required),
    ("content", contentJson b.contentType (some b.schema) b.example?)]

/-- A response. Its content is shown when there is a schema or an example. -/
def responseJson (r : Response Json) : Json :=
  let content :=
    if r.schema.isSome || r.example?.isSome then
      some (contentJson r.contentType r.schema r.example?)
    else none
  .object (present [("description", some (.string r.description)), ("content", content)])

def plainResponse : Response Json := { status := 200, description := "Successful response" }

/-- The responses by status: a repeated status keeps its first place and takes its last response. -/
def responsesJson (responses : List (Response Json)) : Json :=
  let shown := if responses.isEmpty then [plainResponse] else responses
  .object (Table.ofList (shown.map fun r => (Decimal.natText r.status.toNat, responseJson r)))

def operationJson (e : Endpoint Json) : Json :=
  .object (present [
    ("summary", some (.string e.name)),
    ("description", e.description.map .string),
    ("operationId", some (.string e.id)),
    ("tags", nonEmpty? (e.tags.map .string)),
    ("parameters", nonEmpty? (e.parameters.ordered.map fun (l, p) => parameterJson l p)),
    ("requestBody", e.body.map bodyJson),
    ("responses", some (responsesJson e.responses))])

def PathItem.toJson (item : PathItem) : Json :=
  .object (item.operations.map fun (method, e) => (method.key, operationJson e))

def infoJson (info : ApiInfo) : Json :=
  .object (present [("title", some (.string info.title)), ("version", some (.string info.version)),
    ("description", info.description.map .string)])

def serverJson (server : Server) : Json :=
  .object (present [("url", some (.string server.url)),
    ("description", server.description.map .string)])

def componentsJson? (schemas : Table Schema) : Option Json :=
  if schemas.isEmpty then none
  else some (.object [("schemas", .object (schemas.map fun (name, schema) =>
    (name, schema.toJson)))])

def Document.toJson (d : Document) : Json :=
  .object (present [
    ("openapi", some (.string formatVersion)),
    ("info", some (infoJson d.info)),
    ("servers", nonEmpty? (d.servers.map serverJson)),
    ("paths", some (.object (d.paths.map fun (path, item) => (path, item.toJson)))),
    ("components", componentsJson? d.schemas)])

end ApiCollection.OpenApi
