import ApiCollection.Collection.Basic
import ApiCollection.Json.Parser

/-!
# Collections in JSON

Every part of a collection is written as an object with its fields in a fixed order, and read from
such an object or from an array of the fields. Nodes carry no mark: what has items is a folder, and
anything else has to be a request. Absent fields are left out, except for the value of a query
parameter, which is null then.
-/

namespace ApiCollection

open Json (present nonEmpty? fields? needed? orElse? optional? list? string? bool?)

def Variable.toJson (v : Variable) : Json :=
  .object (present [("key", some (.string v.key)), ("value", some (.string v.value)),
    ("type", v.type.map .string), ("description", v.description.map .string)])

def Header.toJson (h : Header) : Json :=
  .object (present [("key", some (.string h.key)), ("value", some (.string h.value)),
    ("type", h.type.map .string), ("disabled", h.disabled.map .bool),
    ("description", h.description.map .string)])

def Payload.toJson (b : Payload) : Json :=
  .object (present [("mode", some (.string b.mode)), ("raw", some (.string b.raw)),
    ("options", if b.options.isNull then none else some b.options)])

def QueryParameter.toJson (q : QueryParameter) : Json :=
  .object (present [("key", some (.string q.key)), ("value", some (.ofOptionString q.value)),
    ("description", q.description.map .string), ("disabled", q.disabled.map .bool)])

def Url.toJson (u : Url) : Json :=
  .object (present [("raw", some (.string u.raw)), ("host", some (.array (u.host.map .string))),
    ("path", some (.array (u.path.map .string))),
    ("query", nonEmpty? (u.query.map QueryParameter.toJson)),
    ("variable", nonEmpty? (u.pathVariables.map Variable.toJson))])

def Request.toJson (r : Request) : Json :=
  .object (present [("method", some (.string r.method)),
    ("header", some (.array (r.headers.map Header.toJson))), ("body", r.body.map Payload.toJson),
    ("url", some r.url.toJson), ("description", r.description.map .string)])

def SavedResponse.toJson (r : SavedResponse) : Json :=
  .object (present [("name", some (.string r.name)),
    ("originalRequest", r.request.map Request.toJson), ("status", some (.string r.status)),
    ("code", some (.int r.code.toNat)),
    ("_postman_previewlanguage", r.language.map .string),
    ("header", some (.array (r.headers.map Header.toJson))), ("body", r.body.map .string)])

def RequestItem.toJson (r : RequestItem) : Json :=
  .object [("name", .string r.name), ("request", r.request.toJson),
    ("response", .array (r.responses.map SavedResponse.toJson))]

mutual

def Item.toJson : Item → Json
  | .folder name description items =>
    .object (present [("name", some (.string name)), ("description", description.map .string),
      ("item", some (.array (Item.listJson items)))])
  | .request r => r.toJson

def Item.listJson : List Item → List Json
  | [] => []
  | item :: rest => item.toJson :: Item.listJson rest

end

/-- What a collection says about itself, as an object. -/
def CollectionInfo.toJson (i : CollectionInfo) : Json :=
  .object (present [("_postman_id", i.identifier.map .string), ("name", some (.string i.name)),
    ("description", i.description.map .string), ("schema", some (.string i.schema))])

def Collection.toJson (c : Collection) : Json :=
  .object [("info", c.info.toJson), ("item", .array (Item.listJson c.items)),
    ("variable", .array (c.sharedVariables.map Variable.toJson))]

def text? : Option Json → Option String := orElse? string? ""

def listField? {α : Type} (read : Json → Option α) : Option Json → Option (List α) :=
  orElse? (list? read) []

def Variable.ofJson? (j : Json) : Option Variable := do
  match ← fields? ["key", "value", "type", "description"] j with
  | [key, value, type, description] =>
    return { key := ← needed? string? key, value := ← text? value
             type := ← optional? string? type, description := ← optional? string? description }
  | _ => none

def Header.ofJson? (j : Json) : Option Header := do
  match ← fields? ["key", "value", "type", "disabled", "description"] j with
  | [key, value, type, disabled, description] =>
    return { key := ← needed? string? key, value := ← needed? string? value
             type := ← optional? string? type, disabled := ← optional? bool? disabled
             description := ← optional? string? description }
  | _ => none

def Payload.ofJson? (j : Json) : Option Payload := do
  match ← fields? ["mode", "raw", "options"] j with
  | [mode, raw, options] =>
    return { mode := ← needed? string? mode, raw := ← text? raw
             options := (options.getD .null).settled }
  | _ => none

def QueryParameter.ofJson? (j : Json) : Option QueryParameter := do
  match ← fields? ["key", "value", "description", "disabled"] j with
  | [key, value, description, disabled] =>
    return { key := ← needed? string? key, value := ← optional? string? value
             description := ← optional? string? description
             disabled := ← optional? bool? disabled }
  | _ => none

def Url.ofJson? (j : Json) : Option Url := do
  match ← fields? ["raw", "host", "path", "query", "variable"] j with
  | [raw, host, path, query, bound] =>
    return { raw := ← text? raw, host := ← listField? string? host
             path := ← listField? string? path
             query := ← listField? QueryParameter.ofJson? query
             pathVariables := ← listField? Variable.ofJson? bound }
  | _ => none

def Request.ofJson? (j : Json) : Option Request := do
  match ← fields? ["method", "header", "body", "url", "description"] j with
  | [method, headers, body, url, description] =>
    return { method := ← needed? string? method
             headers := ← listField? Header.ofJson? headers
             body := ← optional? Payload.ofJson? body, url := ← needed? Url.ofJson? url
             description := ← optional? string? description }
  | _ => none

def statusCode? (j : Json) : Option UInt16 := (Json.natBelow? 65536 j).map .ofNat

def SavedResponse.ofJson? (j : Json) : Option SavedResponse := do
  match ← fields? ["name", "originalRequest", "status", "code", "_postman_previewlanguage",
      "header", "body"] j with
  | [name, request, status, code, language, headers, body] =>
    return { name := ← needed? string? name, request := ← optional? Request.ofJson? request
             status := ← needed? string? status, code := ← needed? statusCode? code
             language := ← optional? string? language
             headers := ← listField? Header.ofJson? headers
             body := ← optional? string? body }
  | _ => none

def RequestItem.ofJson? (j : Json) : Option RequestItem := do
  match ← fields? ["name", "request", "response"] j with
  | [name, request, responses] =>
    return { name := ← needed? string? name, request := ← needed? Request.ofJson? request
             responses := ← listField? SavedResponse.ofJson? responses }
  | _ => none

/-- The name and the description of a folder among the members of an object, whose items are
written once. -/
def folderHead? (members : List (String × Json)) : Option (String × Option String) := do
  match ← fields? ["name", "description", "item"] (.object members) with
  | [name, description, some _] =>
    return (← needed? string? name, ← optional? string? description)
  | _ => none

mutual

/-- Reads a node: a folder if it can be read as one, else a request. -/
def Item.ofJson? : Json → Option Item
  | .object members =>
    match folderHead? members, Item.ofMembers? members with
    | some (name, description), some items => some (.folder name description items)
    | _, _ => (RequestItem.ofJson? (.object members)).map .request
  | .array [name, description, .array items] =>
    match name.string?, optional? string? (some description), Item.ofList? items with
    | some name, some description, some items => some (.folder name description items)
    | _, _, _ => (RequestItem.ofJson? (.array [name, description, .array items])).map .request
  | j => (RequestItem.ofJson? j).map .request

def Item.ofMembers? : List (String × Json) → Option (List Item)
  | [] => none
  | (key, value) :: rest => if key == "item" then Item.ofItems? value else Item.ofMembers? rest

def Item.ofItems? : Json → Option (List Item)
  | .array items => Item.ofList? items
  | _ => none

def Item.ofList? : List Json → Option (List Item)
  | [] => some []
  | j :: rest =>
    match Item.ofJson? j, Item.ofList? rest with
    | some item, some items => some (item :: items)
    | _, _ => none

end

def CollectionInfo.ofJson? (j : Json) : Option CollectionInfo := do
  match ← fields? ["_postman_id", "name", "description", "schema"] j with
  | [identifier, name, description, schema] =>
    return { identifier := ← optional? string? identifier, name := ← needed? string? name
             description := ← optional? string? description, schema := ← needed? string? schema }
  | _ => none

def Collection.ofJson? (j : Json) : Option Collection := do
  match ← fields? ["info", "item", "variable"] j with
  | [info, items, shared] =>
    return { info := ← needed? CollectionInfo.ofJson? info
             items := ← listField? Item.ofJson? items
             sharedVariables := ← listField? Variable.ofJson? shared }
  | _ => none

def Collection.parse (text : String) : Option Collection :=
  (Json.parseWritten text).bind Collection.ofJson?

end ApiCollection
