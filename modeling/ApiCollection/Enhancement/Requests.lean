import ApiCollection.Collection.Basic
import ApiCollection.Example.Value
import ApiCollection.Text.Casing
import ApiCollection.Text.Reading

/-!
# Completion of requests

A request gets a display name, the headers that it lacks, references to variables in its address and
example responses. What is there stays.

A display name has no verb of a request in front, its words are capitalised, and names of reads say
`List` and `by ID`. From a name follow the entity that a request is about and the variable that
stands for a bare `id` in its path. The variables that are met are kept in a table, each with a
first value. An example is added for each response that the method and the path suggest, unless
there is a response of that name; its body is drawn from a stream.
-/

namespace ApiCollection.Enhancement

open ApiCollection.Random Text

/-- What follows a word in small letters, if the text begins with it in any case. -/
def afterFolded? : List Char → List Char → Option (List Char)
  | [], cs => some cs
  | _ :: _, [] => none
  | w :: word, c :: cs => if foldChar c == w then afterFolded? word cs else none

/-- What follows a whole word in small letters, in any case. -/
def wholeWord? (word : String) (prev : Option Char) (cs : List Char) : Option (List Char) := do
  let rest ← afterFolded? word.toList cs
  if isBoundary prev && isBoundary rest.head? then some rest else none

/-- Replaces the first part that a reader recognises. -/
def replaceFirst? (read : Option Char → List Char → Option (List Char)) (new : List Char)
    (prev : Option Char) : List Char → Option (List Char)
  | [] => none
  | c :: cs => match read prev (c :: cs) with
    | some rest => some (new ++ rest)
    | none => (replaceFirst? read new (some c) cs).map (c :: ·)

def verbs : List String := ["get", "post", "put", "delete", "patch"]

def withoutVerb (cs : List Char) : List Char :=
  (verbs.findSome? fun verb => (afterFolded? verb.toList cs).bind afterBlanks?).getD cs

/-- A word with capitals where its parts begin. A word with other characters than letters and
digits stays. -/
def displayWord (word : List Char) : List Char :=
  if word.all isAlphanumeric then (titleCase (String.ofList word)).toList else word

def allWord? (prev : Option Char) (cs : List Char) : Option (List Char) :=
  (wholeWord? "all" prev cs).map trimStart

/-- A name that says `all` says `List` in front instead. -/
def sayList (name : List Char) : List Char :=
  match replaceFirst? allWord? [] none name with
  | some rest => trim ("List ".toList ++ rest)
  | none => name

/-- The words `by id` in one spelling. -/
def sayById (name : List Char) : List Char :=
  (replaceFirst? (wholeWord? "by id") "by ID".toList none name).getD name

def displayName (name method : String) : String :=
  let spoken := joinWith [' '] ((words (withoutVerb (trim name.toList))).map displayWord)
  let improved := if equalIgnoringCase method "GET" then sayById (sayList spoken) else spoken
  if improved.isEmpty then name else String.ofList improved

def stopWords : List String := ["by", "ID", "the", "Get", "Create", "Update", "Delete", "List"]

/-- The entity of a name: its first word of more than two bytes that is no stop word. -/
def entityName (name : String) : String :=
  let found := (words name.toList).find? fun word =>
    byteLength word > 2 && !stopWords.contains (String.ofList word)
  (found.map String.ofList).getD "Entity"

def identifierVariables : List (String × String) :=
  [("user", "userId"), ("product", "productId"), ("order", "orderId"), ("customer", "customerId"),
    ("item", "itemId")]

def identifierVariable (name : String) : String :=
  let small := lower name.toList
  ((identifierVariables.find? fun (word, _) => occursIn word.toList small).map (·.2)).getD "id"

def conventionalVariables : List String := ["userId", "productId", "orderId"]

def variableName (parameter name : String) : String :=
  if conventionalVariables.contains parameter then parameter
  else if parameter == "id" then identifierVariable name
  else parameter

def hasHeader (headers : List Header) (key : String) : Bool :=
  headers.any fun h => Text.equalIgnoringCase h.key key

def addHeader (headers : List Header) (h : Header) : List Header :=
  if hasHeader headers h.key then headers else headers ++ [h]

/-- The authorisation, which is not sent until it is enabled. -/
def disabledBearer : Header :=
  { Header.text "Authorization" "Bearer \x7b\x7btoken\x7d\x7d" with disabled := some true }

def defaultHeaders (hasBody : Bool) : List Header :=
  .text "Accept" "application/json" ::
    ((if hasBody then [.text "Content-Type" "application/json"] else []) ++ [disabledBearer])

def completeHeaders (r : RequestItem) : RequestItem :=
  let headers := (defaultHeaders r.request.body.isSome).foldl addHeader r.request.headers
  { r with request := { r.request with headers := headers } }

def reference (key : String) : String := "\x7b\x7b" ++ key ++ "\x7d\x7d"

/-- The parameter of a segment: what follows a colon, or a word in braces. -/
def segmentParameter? (segment : String) : Option String :=
  match segment.toList with
  | ':' :: name => some (String.ofList name)
  | '\x7b' :: rest => do
    let (name, behind) ← word? rest
    if behind == ['\x7d'] then some (String.ofList name) else none
  | _ => none

def segmentVariable? (name segment : String) : Option String :=
  (segmentParameter? segment).map fun parameter => variableName parameter name

def referSegment (name segment : String) : String :=
  ((segmentVariable? name segment).map reference).getD segment

def entryVariable (name : String) (entry : Variable) : String := variableName entry.key name

def referUrl (name : String) (url : Url) : Url :=
  Url.rebuild { url with
    path := url.path.map (referSegment name)
    pathVariables := url.pathVariables.map fun v =>
      { v with value := reference (entryVariable name v) } }

def urlVariables (name : String) (url : Url) : List String :=
  url.path.filterMap (segmentVariable? name) ++ url.pathVariables.map (entryVariable name)

def firstValue : String := "1"

def discover (known : Table String) (keys : List String) : Table String :=
  keys.foldl (fun known key => known.insertNew key firstValue) known

def referRequest (r : RequestItem) : RequestItem :=
  { r with request := { r.request with url := referUrl r.name r.request.url } }

def requestVariables (r : RequestItem) : List String := urlVariables r.name r.request.url

inductive Content where
  | entity
  | list
  | invalid
  | missing
  | nothing
  deriving DecidableEq, Repr

structure Plan where
  name : String
  code : UInt16
  content : Content
  deriving DecidableEq, Repr

/-- The suggested response to something that does not exist. -/
def missingPlan : Plan := ⟨"404 Not Found", 404, .missing⟩

/-- The suggested response to a body that is not valid. -/
def invalidPlan : Plan := ⟨"400 Bad Request", 400, .invalid⟩

/-- The responses that a method suggests, with or without parameters in the path. -/
def plans (method : String) (parameterized : Bool) : List Plan :=
  match Text.uppercase method with
  | "GET" =>
    if parameterized then [⟨"200 OK", 200, .entity⟩, missingPlan] else [⟨"200 OK", 200, .list⟩]
  | "POST" => [⟨"201 Created", 201, .entity⟩, invalidPlan]
  | "PUT" | "PATCH" => [⟨"200 OK", 200, .entity⟩, invalidPlan, missingPlan]
  | "DELETE" => [⟨"204 No Content", 204, .nothing⟩, missingPlan]
  | _ => []

def listLength : Nat := 3

def drawContent (cache : Dto.Cache) (entity path : String) : Content → Draw (Option Json)
  | .entity => some <$> Example.forResponse cache entity
  | .list => some <$> Example.forResponses cache entity listLength
  | .invalid => some <$> Example.forError 400 "Validation failed" path
  | .missing => some <$> Example.forError 404 (entity ++ " not found") path
  | .nothing => return none

/-- Adds the response of a plan unless one of its name is present. -/
def addPlanned (cache : Dto.Cache) (entity path : String) (responses : List SavedResponse)
    (plan : Plan) : Draw (List SavedResponse) := do
  if responses.any fun r => r.name == plan.name then return responses
  else
    let body ← drawContent cache entity path plan.content
    return responses ++ [.json plan.name plan.code body]

def isParameterized (path : String) : Bool :=
  Text.occursIn [':'] path.toList || Text.occursIn ['\x7b', '\x7b'] path.toList

def completeResponses (cache : Dto.Cache) (r : RequestItem) : Draw RequestItem := do
  let path := r.request.url.pathText
  let planned := plans r.request.method (isParameterized path)
  let responses ← planned.foldlM (addPlanned cache (entityName r.name) path) r.responses
  return { r with responses := responses }

end ApiCollection.Enhancement
