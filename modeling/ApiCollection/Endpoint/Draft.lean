import ApiCollection.Endpoint.Binding
import ApiCollection.Example.Value
import ApiCollection.Java.ClassHead
import ApiCollection.Java.MethodHead
import ApiCollection.Schema.Components
import ApiCollection.Text.Casing

/-!
# Drafts of endpoints

A draft is an endpoint whose examples are recipes, with its inputs in the order in which they are
declared. Drafts depend on the source text only. Drawing goes through the recipes of a draft from
the first input to the last response and gives the endpoint.
-/

namespace ApiCollection

open Java Schema Text

/-- A declared input of an endpoint. -/
inductive Input (α : Type) where
  | parameter (location : Location) (p : Parameter α)
  | body (b : Body α)

/-- A response of a draft. The recipe of an answer without content is followed, and its outcome is
left out. -/
structure DraftResponse where
  response : Response Recipe
  unshown : Option Recipe := none

/-- An endpoint that is laid out. -/
structure Draft where
  id : String
  method : HttpMethod
  path : String
  name : String
  description : Option String
  tag : String
  inputs : List (Input Recipe)
  responses : List DraftResponse
  /-- The shapes that its schemas are made from, in order. -/
  shapes : List Descriptor

namespace Draft

def parameter (b : Binding) : Parameter Recipe :=
  let schema := ofDescriptor (TypeExpr.parse b.type).shape
  { name := b.name
    type := b.type
    required := b.required
    schema := { schema with default := b.default.map .string }
    example? := some (.field b.name b.type)
    description := none }

def bodyRecipe (type : String) : Recipe :=
  match (TypeExpr.parse type).shape with
  | .reference name => .request name
  | .array (.reference name) => .requests name
  | _ => .value type

def body (b : Binding) : Body Recipe :=
  { type := b.type
    required := b.required
    contentType := "application/json"
    schema := ofDescriptor (TypeExpr.parse b.type).shape
    example? := some (bodyRecipe b.type) }

def input (b : Binding) : Input Recipe :=
  if b.location == .body then .body (body b) else .parameter b.location (parameter b)

/-- The variable of a path template such as `\x7bid\x7d` or `\x7bid:[0-9]+\x7d`. -/
def templateVariable? (_ : Option Char) (cs : List Char) : Option (String × List Char) := do
  let (name, rest) ← word? (← afterChar? '\x7b' cs)
  let rest := match afterChar? ':' rest with
    | some pattern => pattern.dropWhile (· != '\x7d')
    | none => rest
  let behind ← afterChar? '\x7d' rest
  return (String.ofList name, behind)

def templateVariables (path : String) : List String := sweep templateVariable? path.toList

def undeclared (name : String) : Parameter Recipe :=
  { name := name
    type := "String"
    required := true
    schema := typed "string" none
    example? := some (.field name "String")
    description := none }

def undeclaredNames (declared : List String) : List String → List String
  | [] => []
  | name :: rest =>
    if declared.contains name then undeclaredNames declared rest
    else name :: undeclaredNames (declared ++ [name]) rest

def pathNames (bindings : List Binding) : List String :=
  (bindings.filter (·.location == .path)).map (·.name)

def answerRecipe (shape : Descriptor) (returnType entity : String) : Recipe :=
  match shape with
  | .reference _ => .response entity
  | .array (.reference _) => .responses entity
  | _ => .value returnType

def documented (status : UInt16) (description : String) (recipe : Recipe) : DraftResponse :=
  ⟨{ status := status, description := description, example? := some recipe }, none⟩

def bare (status : UInt16) (description : String) : DraftResponse :=
  ⟨{ status := status, description := description }, none⟩

def plainResponses (method : HttpMethod) (shape : Descriptor) (answer : Recipe)
    (entity path : String) : List DraftResponse :=
  let notFound := documented 404 "Not found" (.error 404 (entity ++ " not found") path)
  match method with
  | .get =>
    let success := documented 200 "Successful response" answer
    if shape.isArray then [success] else [success, notFound]
  | .post =>
    [documented 201 "Created successfully" answer,
      documented 400 "Bad request" (.error 400 "Validation failed" path)]
  | .put | .patch => [documented 200 "Updated successfully" answer, notFound]
  | .delete => [bare 204 "Deleted successfully", notFound]
  | .options | .head => [bare 200 "Successful response"]

/-- Gives the first response the schema of the answer; an answer without content shows neither
schema nor example. -/
def describeFirst (type : TypeExpr) : List DraftResponse → List DraftResponse
  | [] => []
  | first :: rest =>
    let response := first.response
    if type.isVoid then
      ⟨{ response with example? := none }, response.example?⟩ :: rest
    else ⟨{ response with schema := some (ofDescriptor type.shape) }, none⟩ :: rest

def answers (method : HttpMethod) (returnType path : String) : List DraftResponse :=
  let type := TypeExpr.parse returnType
  let entity := type.entityName
  describeFirst type
    (plainResponses method type.shape (answerRecipe type.shape returnType entity) entity path)

def hasResponses (returnType : String) : Bool := !returnType.isEmpty && returnType != "void"

/-- The draft of a method, if it has a mapping directive. -/
def ofMethod? (className basePath : String) (m : MethodHead) : Option Draft := do
  let mapping ← Mapping.of? m.directives
  let path := rooted (Mapping.joinPath basePath mapping.path)
  let (summary, description) := documentation m.directives
  let bindings := (parameters m.parameters.toList).filterMap Binding.of?
  let added := undeclaredNames (pathNames bindings) (templateVariables path)
  let returnType := String.ofList (trim m.returnType.toList)
  let responses := if hasResponses returnType then answers mapping.method returnType path else []
  let answerType := TypeExpr.parse returnType
  let answerShapes := if responses.isEmpty || answerType.isVoid then [] else [answerType.shape]
  return {
    id := m.name
    method := mapping.method
    path := path
    name := summary.getD (titleCase m.name)
    description := description
    tag := className
    inputs := bindings.map input ++ added.map fun name => .parameter .path (undeclared name)
    responses := responses
    shapes := bindings.map (fun b => (TypeExpr.parse b.type).shape) ++ answerShapes }

/-- The drafts of a source text, in the order of its methods. -/
def ofSource (head : ClassHead) (methods : List MethodHead) : List Draft :=
  methods.filterMap (ofMethod? head.name (Mapping.basePath head.directives))

end Draft

open ApiCollection.Random

/-- Adds an input to an endpoint. A later body takes the place of an earlier one. -/
def Endpoint.addInput {α : Type} (e : Endpoint α) : Input α → Endpoint α
  | .parameter location p => { e with parameters := e.parameters.push location p }
  | .body b => { e with body := some b }

namespace Draft

def drawInput (cache : Dto.Cache) (listSize : Nat) : Input Recipe → Draw (Input Json)
  | .parameter location p => do
    return .parameter location { p with example? := ← Recipe.draw? cache listSize p.example? }
  | .body b => do return .body { b with example? := ← Recipe.draw? cache listSize b.example? }

def drawResponse (cache : Dto.Cache) (listSize : Nat) (r : DraftResponse) :
    Draw (Response Json) := do
  let _ ← Recipe.draw? cache listSize r.unshown
  return { r.response with example? := ← Recipe.draw? cache listSize r.response.example? }

def draw (cache : Dto.Cache) (listSize : Nat) (d : Draft) : Draw (Endpoint Json) := do
  let inputs ← d.inputs.mapM (drawInput cache listSize)
  let responses ← d.responses.mapM (drawResponse cache listSize)
  let endpoint : Endpoint Json :=
    { id := d.id, method := d.method, path := d.path, name := d.name,
      description := d.description, tags := [d.tag], responses := responses }
  return inputs.foldl Endpoint.addInput endpoint

end Draft
end ApiCollection
