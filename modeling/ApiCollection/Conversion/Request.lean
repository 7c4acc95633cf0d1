import ApiCollection.Collection.Basic
import ApiCollection.Json.Pointer
import ApiCollection.Text.Casing

/-!
# Requests of operations

An operation of a document becomes a request: its parameters go to the address and the headers, the
sample of its body is sent, and its responses are kept as examples.

The schemas of a document may refer to each other by pointers into it. A sample of a schema is its
declared example or default, the first value of its enumeration, or is put together from the
samples of its parts. References and parts are followed to a limited depth.
-/

namespace ApiCollection.Conversion

/-- How many references are followed one after the other, and how deep samples nest. -/
def maxDepth : Nat := 5

/-- The value that a reference object refers to, if it is one that leads somewhere. -/
def target? (document value : Json) : Option Json := do
  let reference ← value.getString? "$ref"
  let pointer ← Text.after? ['#'] reference.toList
  document.at? (String.ofList pointer)

def resolveAtMost (document : Json) : Nat → Json → Json
  | 0, value => value
  | n + 1, value => match target? document value with
    | some target => resolveAtMost document n target
    | none => value

/-- The value behind a reference, or the value itself when it is none. -/
def resolve (document value : Json) : Json := resolveAtMost document maxDepth value

def textSample (format : String) : String :=
  match format with
  | "date-time" => "2024-01-01T00:00:00Z"
  | "date" => "2024-01-01"
  | "uuid" => "3fa85f64-5717-4562-b3fc-2c963f66afa6"
  | "email" => "user@example.com"
  | "uri" | "url" => "https://example.com"
  | "byte" => "U3dhZ2dlciByb2Nrcw=="
  | _ => "string"

def oneAndHalf : Json := .number (.real 0x3FF8000000000000)

def scalarSample (type format : String) : Json :=
  match type with
  | "integer" => 1
  | "number" => oneAndHalf
  | "boolean" => .bool true
  | "string" => .string (textSample format)
  | _ => .null

def declaredSample? (schema : Json) : Option Json :=
  ((schema.get? "example").or (schema.get? "default")).or (schema.follow? ["enum", "0"])

/-- The type of a schema. One with properties is an object. -/
def schemaType (schema : Json) : String :=
  (schema.getString? "type").getD (if (schema.get? "properties").isSome then "object" else "")

/-- The alternative of a schema that counts: the first one. -/
def alternative? (schema : Json) : Option Json :=
  (schema.follow? ["oneOf", "0"]).or (schema.follow? ["anyOf", "0"])

/-- The members of several objects, later ones in the place of earlier ones. -/
def mergeObjects (parts : List Json) : Json :=
  .object ((parts.flatMap fun part => part.members?.getD []).foldl
    (fun merged (key, value) => Table.insert merged key value) [])

/-- The sample of a schema, with at most some levels of parts. -/
def sampleWithin (document : Json) : Nat → Json → Json
  | 0, _ => .null
  | levels + 1, schema =>
    let schema := resolve document schema
    match declaredSample? schema with
    | some value => value
    | none => match (schema.get? "allOf").bind Json.items? with
      | some parts => mergeObjects (parts.map (sampleWithin document levels))
      | none => match alternative? schema with
        | some first => sampleWithin document levels first
        | none => match schemaType schema with
          | "object" =>
            .object ((schema.getMembers "properties").map fun (name, property) =>
              (name, sampleWithin document levels property))
          | "array" => match schema.get? "items" with
            | some items => .array [sampleWithin document levels items]
            | none => .array []
          | type => scalarSample type ((schema.getString? "format").getD "")

def sample (document schema : Json) : Json := sampleWithin document (maxDepth + 1) schema

inductive Grouping where
  /-- One folder for each tag; the first tag of an operation counts. -/
  | tags
  /-- One folder for each first segment of the paths. -/
  | paths
  deriving DecidableEq, Repr

inductive ValueSource where
  /-- Declared examples, or else samples. -/
  | example
  /-- Names of types in angle brackets. -/
  | schema
  deriving DecidableEq, Repr

structure Options where
  grouping : Grouping := .tags
  parameters : ValueSource := .example
  examples : ValueSource := .example
  /-- Whether the requests of example responses show that they are authorised. -/
  authorization : Bool := true
  deriving DecidableEq, Repr

structure Operation where
  path : String
  /-- The key of its method. -/
  method : String
  content : Json
  /-- The parameters of all operations of its path. -/
  shared : Option Json
  deriving DecidableEq, Repr

/-- The name and the location of a parameter; what is missing is empty. -/
def parameterKey (parameter : Json) : String × String :=
  ((parameter.getString? "name").getD "", (parameter.getString? "in").getD "")

/-- Puts a parameter in the place of one with the same name and location, else at the end. -/
def overrideParameter (parameter : Json) : List Json → List Json
  | [] => [parameter]
  | p :: rest =>
    if parameterKey p == parameterKey parameter then parameter :: rest
    else p :: overrideParameter parameter rest

def mergeParameters (document : Json) (shared own : Option Json) : List Json :=
  let written := [shared, own].flatMap fun list => (list.bind Json.items?).getD []
  (written.map (resolve document)).foldl (fun merged p => overrideParameter p merged) []

def placeholder (schema : Json) : String :=
  let label := ((schema.get? "format").or (schema.get? "type")).bind Json.string?
  "<" ++ label.getD "any" ++ ">"

def namedExample? (examples : Option Json) : Option Json :=
  match examples.bind Json.members? with
  | some ((_, first) :: _) => first.get? "value"
  | _ => none

def parameterText (document : Json) (source : ValueSource) (parameter : Json) : String :=
  let schema := (parameter.get? "schema").getD parameter
  let value : Json := match source with
    | .schema => .string (placeholder schema)
    | .example => ((parameter.get? "example").or
        (namedExample? (parameter.get? "examples"))).getD (sample document schema)
  match value with
  | .string s => s
  | other => other.compact

def located (location : String) (parameters : List Json) : List (String × Json) :=
  parameters.filterMap fun p =>
    if p.getString? "in" == some location then (p.getString? "name").map fun name => (name, p)
    else none

/-- The entry of a content that counts: the first one in JSON, else the first one. -/
def pickMedia? (content : Option Json) : Option (String × Json) := do
  let members ← content.bind Json.members?
  (members.find? fun (type, _) => Text.occursIn "json".toList type.toList).or members.head?

def mediaValue (document : Json) (source : ValueSource) (media : Json) : Json :=
  let schema := media.get? "schema"
  match source with
  | .schema => (schema.map fun s => .string (placeholder (resolve document s))).getD .null
  | .example => (((media.get? "example").or (namedExample? (media.get? "examples"))).or
      (schema.map (sample document))).getD .null

/-- The media type and the value of the body of an operation. A body among the parameters counts
when there is no other one. -/
def requestBody? (document : Json) (source : ValueSource) (parameters : List Json)
    (content : Json) : Option (String × Json) :=
  let body := (content.get? "requestBody").map (resolve document)
  match pickMedia? (body.bind (·.get? "content")) with
  | some (type, media) => some (type, mediaValue document source media)
  | none =>
    let schemas := (located "body" parameters).filterMap fun (_, p) => p.get? "schema"
    schemas.getLast?.map fun schema => ("application/json", sample document schema)

/-- Puts a colon in the place of each pair of braces. -/
def colonSegment : List Char → List Char
  | [] => []
  | c :: cs =>
    if c == '\x7b' then
      match _h : Text.cutAtChar? '\x7d' cs with
      | some (name, rest) => ':' :: name ++ colonSegment rest
      | none => c :: cs
    else c :: colonSegment cs
termination_by cs => cs.length
decreasing_by
  · have := congrArg List.length (Text.cutAtChar?_eq_some _h)
    simp only [List.length_append, List.length_cons] at this ⊢
    omega
  · simp

/-- The segments of a path that are not empty. -/
def pathSegments (path : String) : List String :=
  (((Text.splitAtChar '/' path.toList).filter fun s => !s.isEmpty)).map String.ofList

def addressSegments (path : String) : List String :=
  (pathSegments path).map fun segment => String.ofList (colonSegment segment.toList)

def baseUrlReference : String := "\x7b\x7bbaseUrl\x7d\x7d"

def description? (value : Json) : Option String := value.getString? "description"

/-- The request of an operation with its merged parameters. -/
def requestOf (document : Json) (options : Options) (o : Operation) (parameters : List Json) :
    Request :=
  let value := parameterText document options.parameters
  let body := requestBody? document options.examples parameters o.content
  let url : Url := {
    host := [baseUrlReference]
    path := addressSegments o.path
    query := (located "query" parameters).map fun (name, p) =>
      { key := name, value := some (value p), description := description? p }
    pathVariables := (located "path" parameters).map fun (name, p) =>
      { key := name, value := value p, type := some "any", description := description? p } }
  { method := Text.uppercase o.method
    headers := (located "header" parameters).map (fun (name, p) =>
        { Header.text name (value p) with description := description? p }) ++
      (body.map fun (type, _) => Header.text "Content-Type" type).toList
    body := body.map fun (_, value) => Payload.json value.pretty
    url := url.rebuild
    description := description? o.content }

def asksSecurity (security : Option Json) : Bool :=
  ((security.bind Json.items?).getD []).any fun r => !(r.members?.getD []).isEmpty

/-- Whether an operation is secured; its own requirements count before those of the document. -/
def isSecured (document content : Json) : Bool :=
  match content.get? "security" with
  | some security => asksSecurity (some security)
  | none => asksSecurity (document.get? "security")

/-- The code of a status: a number of 16 bits, perhaps with a plus sign, and 500 for anything
else. -/
def statusCode (status : String) : UInt16 :=
  let digits := (Text.after? ['+'] status.toList).getD status.toList
  match (Json.decimal? digits).filter (· < 65536) with
  | some code => .ofNat code
  | none => 500

def responseValue? (document : Json) (source : ValueSource) (response : Json) : Option Json :=
  match pickMedia? (response.get? "content") with
  | some (_, media) => some (mediaValue document source media)
  | none => (response.get? "schema").map (sample document)

def savedResponse (document : Json) (source : ValueSource) (request : Request) (status : String)
    (response : Json) : SavedResponse :=
  let response := resolve document response
  let name := ((description? response).filter fun d => !d.isEmpty).getD status
  let value := responseValue? document source response
  let saved := SavedResponse.json name (statusCode status) value
  let shown := if value.isSome then saved else { saved with language := none, headers := [] }
  { shown with request := some request }

def bearerHeader : Header := .text "Authorization" "Bearer \x7b\x7btoken\x7d\x7d"

def savedResponses (document : Json) (options : Options) (content : Json) (request : Request) :
    List SavedResponse :=
  let shown :=
    if options.authorization && isSecured document content then
      { request with headers := request.headers ++ [bearerHeader] }
    else request
  (content.getMembers "responses").map fun (status, response) =>
    savedResponse document options.examples shown status response

/-- The name of an operation: its summary, else its identifier, else its path. -/
def operationName (o : Operation) : String :=
  let named := ((o.content.get? "summary").or (o.content.get? "operationId")).bind Json.string?
  (named.filter fun s => !s.isEmpty).getD o.path

def requestItem (document : Json) (options : Options) (o : Operation) : RequestItem :=
  let parameters := mergeParameters document o.shared (o.content.get? "parameters")
  let request := requestOf document options o parameters
  { name := operationName o
    request := request
    responses := savedResponses document options o.content request }

end ApiCollection.Conversion
