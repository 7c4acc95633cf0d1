import ApiCollection.Json.Printer
import ApiCollection.Text.Chars

/-!
# Collections

A collection is a tree of folders with requests as its leaves, and a list of variables. Requests
are visited depth first, in the order of the tree.
-/

namespace ApiCollection

structure Variable where
  key : String
  value : String := ""
  type : Option String := none
  description : Option String := none
  deriving DecidableEq, Repr

def Variable.text (key value : String) : Variable :=
  { key := key, value := value, type := some "string" }

structure Header where
  key : String
  value : String
  type : Option String := none
  disabled : Option Bool := none
  description : Option String := none
  deriving DecidableEq, Repr

def Header.text (key value : String) : Header :=
  { key := key, value := value, type := some "text" }

/-- The body that is sent with a request. Options that are null are absent. -/
structure Payload where
  mode : String
  raw : String := ""
  options : Json := .null
  deriving DecidableEq, Repr

def Payload.json (raw : String) : Payload :=
  { mode := "raw", raw := raw
    options := .object [("raw", .object [("language", .string "json")])] }

structure QueryParameter where
  key : String
  value : Option String := none
  description : Option String := none
  disabled : Option Bool := none
  deriving DecidableEq, Repr

/-- The address of a request in its parts, and as one text. -/
structure Url where
  raw : String := ""
  host : List String := []
  path : List String := []
  query : List QueryParameter := []
  pathVariables : List Variable := []
  deriving DecidableEq, Repr

def joined (separator : String) (texts : List String) : String := separator.intercalate texts

namespace Url

def queryText (q : QueryParameter) : String := q.key ++ "=" ++ q.value.getD ""

def queryTexts (url : Url) : List String :=
  (url.query.filter fun q => q.disabled != some true).map queryText

def assemble (url : Url) : String :=
  let path := if url.path.isEmpty then "" else "/" ++ joined "/" url.path
  let query := if url.queryTexts.isEmpty then "" else "?" ++ joined "&" url.queryTexts
  joined "." url.host ++ path ++ query

def rebuild (url : Url) : Url := { url with raw := url.assemble }

def pathText (url : Url) : String := "/" ++ joined "/" url.path

end Url

structure Request where
  method : String
  headers : List Header := []
  body : Option Payload := none
  url : Url
  description : Option String := none
  deriving DecidableEq, Repr

/-- A response that is kept as an example. -/
structure SavedResponse where
  name : String
  request : Option Request := none
  status : String
  code : UInt16
  language : Option String := none
  headers : List Header := []
  body : Option String := none
  deriving DecidableEq, Repr

/-- What is said about a status code. -/
def reasonPhrase (code : Nat) : String :=
  match code with
  | 200 => "OK"
  | 201 => "Created"
  | 202 => "Accepted"
  | 204 => "No Content"
  | 400 => "Bad Request"
  | 401 => "Unauthorized"
  | 403 => "Forbidden"
  | 404 => "Not Found"
  | 409 => "Conflict"
  | 422 => "Unprocessable Entity"
  | 500 => "Internal Server Error"
  | _ => ""

def SavedResponse.json (name : String) (code : UInt16) (body : Option Json) : SavedResponse :=
  { name := name
    status := reasonPhrase code.toNat
    code := code
    language := some "json"
    headers := [{ key := "Content-Type", value := "application/json" }]
    body := body.map Json.pretty }

structure RequestItem where
  name : String
  request : Request
  responses : List SavedResponse := []
  deriving DecidableEq, Repr

inductive Item where
  | folder (name : String) (description : Option String) (items : List Item)
  | request (r : RequestItem)
  deriving Repr

namespace Item

instance : Inhabited Item := ⟨.folder "" none []⟩

mutual

def requests : Item → List RequestItem
  | .folder _ _ items => requestsOf items
  | .request r => [r]

def requestsOf : List Item → List RequestItem
  | [] => []
  | item :: rest => item.requests ++ requestsOf rest

end

mutual

def count : Item → Nat
  | .folder _ _ items => countOf items
  | .request _ => 1

def countOf : List Item → Nat
  | [] => 0
  | item :: rest => item.count + countOf rest

end

mutual

theorem count_eq_length (item : Item) : item.count = item.requests.length := by
  cases item with
  | folder name description items => exact countOf_eq_length items
  | request r => rfl

theorem countOf_eq_length (items : List Item) : countOf items = (requestsOf items).length := by
  cases items with
  | nil => rfl
  | cons item rest =>
    rw [countOf, requestsOf, List.length_append, count_eq_length item, countOf_eq_length rest]

end

variable {m : Type → Type} [Monad m]

mutual

def visit (f : RequestItem → m RequestItem) : Item → m Item
  | .folder name description items => return .folder name description (← visitAll f items)
  | .request r => return .request (← f r)

def visitAll (f : RequestItem → m RequestItem) : List Item → m (List Item)
  | [] => return []
  | item :: rest => do
    let item ← item.visit f
    return item :: (← visitAll f rest)

end

end Item

structure CollectionInfo where
  identifier : Option String := none
  name : String
  description : Option String := none
  schema : String
  deriving DecidableEq, Repr

structure Collection where
  info : CollectionInfo
  items : List Item := []
  sharedVariables : List Variable := []

namespace Collection

def formatAddress : String :=
  "https://schema.getpostman.com/json/collection/v2.1.0/collection.json"

def named (name : String) : Collection := { info := { name := name, schema := formatAddress } }

def findVariable? (c : Collection) (key : String) : Option Variable :=
  c.sharedVariables.find? fun v => v.key == key

def hasVariable (c : Collection) (key : String) : Bool := (c.findVariable? key).isSome

def addVariable (c : Collection) (key value : String) : Collection :=
  if c.hasVariable key then c
  else { c with sharedVariables := c.sharedVariables ++ [.text key value] }

def setFirst (key value : String) : List Variable → List Variable
  | [] => []
  | v :: rest =>
    if v.key == key then { v with value := value } :: rest else v :: setFirst key value rest

/-- Gives a variable a value, and adds it when it is missing. -/
def setVariable (c : Collection) (key value : String) : Collection :=
  if c.hasVariable key then { c with sharedVariables := setFirst key value c.sharedVariables }
  else c.addVariable key value

def requests (c : Collection) : List RequestItem := Item.requestsOf c.items

def requestCount (c : Collection) : Nat := Item.countOf c.items

theorem requestCount_eq (c : Collection) : c.requestCount = c.requests.length :=
  Item.countOf_eq_length c.items

def visit {m : Type → Type} [Monad m] (f : RequestItem → m RequestItem) (c : Collection) :
    m Collection :=
  return { c with items := ← Item.visitAll f c.items }

def mapRequests (f : RequestItem → RequestItem) (c : Collection) : Collection :=
  Id.run (c.visit fun r => pure (f r))

end Collection
end ApiCollection
