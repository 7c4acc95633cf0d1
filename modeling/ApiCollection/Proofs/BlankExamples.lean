import ApiCollection.Proofs.GatheredApi
import ApiCollection.Proofs.TableEntries
import ApiCollection.OpenApi.Printer

/-!
# Seeds and list lengths

The stream of random words and the length of lists reach nothing but the examples: with every
example that is present made blank, what is read from a source text does not depend on them, and
neither does a document outside of its examples.
-/

namespace ApiCollection

open ApiCollection.Random

variable {α : Type}

def blankExample : Option α → Option Json := Option.map fun _ => .null

/-- An endpoint whose examples are null where there is one. -/
def Endpoint.blanked (e : Endpoint α) : Endpoint Json := e.relabel blankExample

def Draft.blanked (d : Draft) : Endpoint Json := d.relabel blankExample

def Extraction.blanked (x : Extraction) : Extraction :=
  { x with endpoints := x.endpoints.map Endpoint.blanked }

def Api.blanked (api : Api) : Api := { api with endpoints := api.endpoints.map Endpoint.blanked }

section Draw

variable (cache : Dto.Cache) (listSize : Nat)

/-- Whether there is an example is up to the recipe alone. -/
theorem blankExample_draw? (recipe : Option Recipe) (s : Stream) :
    blankExample ((Recipe.draw? cache listSize recipe).run s).1 = blankExample recipe := by
  cases recipe <;> rfl

private theorem blanked_extract (unit : SourceUnit) (seed : UInt64) :
    (unit.extract cache seed listSize).blanked = {
      className := unit.head.name
      endpoints := (Draft.ofSource unit.head unit.methods).map Draft.blanked
      schemas := Schema.components cache
        ((Draft.ofSource unit.head unit.methods).flatMap (·.shapes)) } := by
  have endpoints : (unit.extract cache seed listSize).endpoints.map Endpoint.blanked =
      (Draft.ofSource unit.head unit.methods).map Draft.blanked :=
    relabel_extract cache listSize (blankExample_draw? cache listSize) unit seed
  rw [Extraction.blanked, endpoints]
  rfl

end Draw

namespace Api

private theorem blanked_addEndpoint (api : Api) (e : Endpoint Json) :
    (api.addEndpoint e).blanked = api.blanked.addEndpoint e.blanked := by
  simp [addEndpoint, blanked, Endpoint.blanked, Endpoint.relabel]

private theorem blanked_merge (api : Api) (x : Extraction) :
    (api.merge x).blanked = api.blanked.merge x.blanked := by
  have endpoints (es : List (Endpoint Json)) (api : Api) : (es.foldl addEndpoint api).blanked =
      (es.map Endpoint.blanked).foldl addEndpoint api.blanked := by
    induction es generalizing api with
    | nil => rfl
    | cons e es ih => rw [List.foldl_cons, ih, blanked_addEndpoint, List.map_cons, List.foldl_cons]
  rw [merge, merge, foldl_addSchema, foldl_addSchema, Extraction.blanked, ← endpoints]
  rfl

private theorem blanked_foldl_merge (xs : List Extraction) (api : Api) :
    (xs.foldl merge api).blanked = (xs.map Extraction.blanked).foldl merge api.blanked := by
  induction xs generalizing api with
  | nil => rfl
  | cons x xs ih => rw [List.foldl_cons, ih, blanked_merge, List.map_cons, List.foldl_cons]

end Api

namespace Json

mutual

/-- A value in which the members of one name are null, at any depth. -/
def blank (name : String) : Json → Json
  | .array items => .array (blankItems name items)
  | .object members => .object (blankMembers name members)
  | .null => .null
  | .bool b => .bool b
  | .number n => .number n
  | .string s => .string s

def blankItems (name : String) : List Json → List Json
  | [] => []
  | item :: items => item.blank name :: blankItems name items

def blankMembers (name : String) : List (String × Json) → List (String × Json)
  | [] => []
  | (key, value) :: members =>
    (key, if key = name then .null else value.blank name) :: blankMembers name members

end

variable {name : String}

private theorem blankItems_eq (items : List Json) :
    blankItems name items = items.map (blank name) := by
  induction items with
  | nil => rfl
  | cons item items ih => rw [blankItems, ih, List.map_cons]

def blankMember (name : String) (m : String × Json) : String × Json :=
  (m.1, if m.1 = name then .null else m.2.blank name)

private theorem blankMembers_eq (members : Members) :
    blankMembers name members = members.map (blankMember name) := by
  induction members with
  | nil => rfl
  | cons m members ih => rw [blankMembers, ih, List.map_cons, blankMember]

@[simp] theorem blank_object (members : Members) :
    blank name (.object members) = .object (members.map (blankMember name)) := by
  rw [blank, blankMembers_eq]

theorem map_present (fields : List (String × Option Json)) :
    (present fields).map (blankMember name) = present (fields.map fun (key, value) =>
      (key, if key = name then value.map fun _ => .null else value.map (blank name))) := by
  induction fields with
  | nil => rfl
  | cons field fields ih =>
    obtain ⟨key, value⟩ := field
    simp only [present] at ih
    cases value with
    | none => by_cases same : key = name <;> simpa [present, same] using ih
    | some v => by_cases same : key = name <;> simpa [present, blankMember, same] using ih

end Json

namespace OpenApi

open Json (blank blankMember nonEmpty? present map_present)

theorem blank_contentJson (type : String) (schema : Option Schema) (example? : Option Json) :
    blank "example" (contentJson type schema example?) =
      blank "example" (contentJson type schema (blankExample example?)) := by
  simp only [contentJson, Json.blank_object, List.map_cons, List.map_nil, blankMember, map_present]
  cases example? <;> rfl

private theorem blank_parameterJson (location : Location) (p : Parameter Json) :
    blank "example" (parameterJson location p) =
      blank "example" (parameterJson location (p.relabel blankExample)) := by
  simp only [parameterJson, Json.blank_object, map_present, Parameter.relabel]
  cases p.example? <;> rfl

private theorem blank_bodyJson (b : Body Json) :
    blank "example" (bodyJson b) = blank "example" (bodyJson (b.relabel blankExample)) := by
  simp only [bodyJson, Json.blank_object, List.map_cons, List.map_nil, blankMember, Body.relabel,
    ← blank_contentJson]

private theorem blank_responseJson (r : Response Json) :
    blank "example" (responseJson r) = blank "example" (responseJson (r.relabel blankExample)) := by
  have shown : (blankExample r.example?).isSome = r.example?.isSome := by cases r.example? <;> rfl
  simp only [responseJson, Json.blank_object, map_present, Response.relabel, shown]
  split
  · simp only [List.map_cons, List.map_nil, Option.map_some, ← blank_contentJson]
  · rfl

private theorem blank_responsesJson (responses : List (Response Json)) :
    blank "example" (responsesJson responses) =
      blank "example" (responsesJson (responses.map (Response.relabel blankExample))) := by
  have shown : (if (responses.map (Response.relabel blankExample)).isEmpty then [plainResponse]
      else responses.map (Response.relabel blankExample)) =
        (if responses.isEmpty then [plainResponse] else responses).map
          (Response.relabel blankExample) := by
    cases responses <;> rfl
  have blanked (members : Json.Members) : (Table.ofList members).map (blankMember "example") =
      Table.ofList (members.map (blankMember "example")) :=
    Table.map_ofList (fun key (value : Json) =>
      if key = "example" then Json.null else value.blank "example") members
  have member (r : Response Json) : blankMember "example" (Decimal.natText r.status.toNat,
      responseJson r) = blankMember "example" (Decimal.natText r.status.toNat,
        responseJson (r.relabel blankExample)) := by
    rw [blankMember, blankMember, blank_responseJson]
  simp only [responsesJson, shown, Json.blank_object, blanked, List.map_map]
  exact congrArg (fun members => Json.object (Table.ofList members))
    (List.map_congr_left fun r _ => member r)

private theorem blank_nonEmpty? (items : List Json) :
    (nonEmpty? items).map (blank "example") = nonEmpty? (items.map (blank "example")) := by
  cases items with
  | nil => rfl
  | cons item items => simp [nonEmpty?, blank, Json.blankItems_eq, Json.blankItems]

private theorem ordered_relabel {β : Type} (g : Option α → Option β) (s : ParameterSet α) :
    (s.relabel g).ordered = s.ordered.map fun (l, p) => (l, p.relabel g) := by
  simp [ParameterSet.relabel, ParameterSet.ordered, Function.comp_def]

private theorem blank_parameters (e : Endpoint Json) :
    (nonEmpty? (e.parameters.ordered.map fun (l, p) => parameterJson l p)).map (blank "example") =
      (nonEmpty? (e.blanked.parameters.ordered.map fun (l, p) => parameterJson l p)).map
        (blank "example") := by
  rw [blank_nonEmpty?, blank_nonEmpty?, Endpoint.blanked, Endpoint.relabel, ordered_relabel,
    List.map_map, List.map_map, List.map_map]
  exact congrArg nonEmpty? (List.map_congr_left fun p _ => blank_parameterJson p.1 p.2)

private theorem blank_operationJson (e : Endpoint Json) :
    blank "example" (operationJson e) = blank "example" (operationJson e.blanked) := by
  have body : (e.body.map bodyJson).map (blank "example") =
      (e.blanked.body.map bodyJson).map (blank "example") := by
    rw [Endpoint.blanked, Endpoint.relabel, Option.map_map, Option.map_map, Option.map_map]
    exact Option.map_congr fun b _ => blank_bodyJson b
  have responses := blank_responsesJson e.responses
  simp only [operationJson, Json.blank_object, map_present, List.map_cons, List.map_nil]
  simp only [String.reduceEq, if_false, blank_parameters e, body, Option.map_some, responses]
  rfl

namespace PathItem

def blanked (item : PathItem) : PathItem := fun method => (item method).map Endpoint.blanked

private theorem operations_blanked (item : PathItem) :
    item.blanked.operations = item.operations.map fun (method, e) => (method, e.blanked) := by
  simp only [operations, blanked, List.map_filterMap, Option.map_map]
  rfl

private theorem blanked_set (item : PathItem) (e : Endpoint Json) :
    (item.set e).blanked = item.blanked.set e.blanked := by
  funext method
  by_cases same : method = e.method
  · simp [blanked, set, same, Endpoint.blanked, Endpoint.relabel]
  · simp [blanked, set, same, Endpoint.blanked, Endpoint.relabel]

private theorem blank_toJson (item : PathItem) :
    blank "example" item.toJson = blank "example" item.blanked.toJson := by
  simp only [toJson, operations_blanked, Json.blank_object, List.map_map]
  refine congrArg Json.object (List.map_congr_left fun (method, e) _ => ?_)
  simp only [Function.comp_apply, blankMember, ← blank_operationJson]

end PathItem

namespace Document

def blanked (d : Document) : Document :=
  { d with paths := d.paths.map fun (path, item) => (path, item.blanked) }

private theorem blanked_add (d : Document) (e : Endpoint Json) :
    (d.add e).blanked = d.blanked.add e.blanked := by
  have item : ((d.blanked.paths.get? e.path).getD .empty) =
      ((d.paths.get? e.path).getD .empty).blanked := by
    rw [blanked, Table.get?_map_values]
    cases d.paths.get? e.path <;> rfl
  have replaced : (((d.paths.get? e.path).getD .empty).blanked e.method).isSome =
      (((d.paths.get? e.path).getD .empty) e.method).isSome := Option.isSome_map
  have placed := Table.map_insert (fun _ item => PathItem.blanked item) d.paths e.path
    (((d.paths.get? e.path).getD .empty).set e)
  rw [PathItem.blanked_set] at placed
  unfold add
  simp only [show e.blanked.path = e.path from rfl, show e.blanked.method = e.method from rfl,
    item, replaced]
  simp only [blanked, placed]

private theorem blanked_ofApi (api : Api) : (ofApi api).blanked = ofApi api.blanked := by
  have fold (es : List (Endpoint Json)) (d : Document) :
      (es.foldl add d).blanked = (es.map Endpoint.blanked).foldl add d.blanked := by
    induction es generalizing d with
    | nil => rfl
    | cons e es ih => rw [List.foldl_cons, ih, blanked_add, List.map_cons, List.foldl_cons]
  exact fold api.endpoints _

/-- Outside of its examples, a document shows nothing of what they are. -/
theorem blank_toJson (d : Document) :
    blank "example" d.toJson = blank "example" d.blanked.toJson := by
  have paths : blank "example" (.object (d.paths.map fun (path, item) => (path, item.toJson))) =
      blank "example" (.object (d.blanked.paths.map fun (path, item) => (path, item.toJson))) := by
    simp only [blanked, Json.blank_object, List.map_map]
    refine congrArg Json.object (List.map_congr_left fun (path, item) _ => ?_)
    simp only [Function.comp_apply, blankMember, ← PathItem.blank_toJson]
  simp only [toJson, Json.blank_object, map_present, List.map_cons, List.map_nil]
  simp only [Option.map_some, paths]
  rfl

end Document
end OpenApi

open OpenApi

/-- Source texts read with other seeds and other list lengths give the same endpoints and the same
components, and the same document, up to the examples. -/
theorem blanked_eq_of_units_eq (info : ApiInfo) (servers : List Server) (cache : Dto.Cache)
    {sources others : List Source} (same : sources.map (·.unit) = others.map (·.unit)) :
    sources.map (fun s => (s.extraction cache).blanked) =
        others.map (fun s => (s.extraction cache).blanked) ∧
      (Document.ofApi (Api.ofSources info servers cache sources)).blanked =
        (Document.ofApi (Api.ofSources info servers cache others)).blanked ∧
      (Document.ofApi (Api.ofSources info servers cache sources)).toJson.blank "example" =
        (Document.ofApi (Api.ofSources info servers cache others)).toJson.blank "example" := by
  have extractions : sources.map (fun s => (s.extraction cache).blanked) =
      others.map (fun s => (s.extraction cache).blanked) := by
    simp only [Source.extraction, blanked_extract]
    simpa only [List.map_map, Function.comp_def] using congrArg (List.map fun unit => ({
      className := unit.head.name
      endpoints := (Draft.ofSource unit.head unit.methods).map Draft.blanked
      schemas := Schema.components cache
        ((Draft.ofSource unit.head unit.methods).flatMap (·.shapes)) } : Extraction)) same
  have documents : (Document.ofApi (Api.ofSources info servers cache sources)).blanked =
      (Document.ofApi (Api.ofSources info servers cache others)).blanked := by
    simp only [Document.blanked_ofApi, Api.ofSources, Api.blanked_foldl_merge, List.map_map,
      Function.comp_def, extractions]
  refine ⟨extractions, documents, ?_⟩
  rw [Document.blank_toJson, documents, ← Document.blank_toJson]

/-- A list of users, with two seeds and with two and no items. -/
theorem blanked_eq_of_two_seeds :
    let unit : SourceUnit := {
      head := ⟨none, "UserController", []⟩
      methods := [⟨"getAllUsers", "List<UserDto>", "@RequestParam Integer page",
        [⟨"GetMapping", some "\"/users\"", "@GetMapping(\"/users\")"⟩], 71, 4⟩] }
    let sources : List Source := [⟨unit, 42, 2⟩]
    let others : List Source := [⟨unit, 7, 0⟩]
    sources.map (·.unit) = others.map (·.unit) ∧
      sources.map (fun s => (s.extraction {}).blanked) =
        others.map (fun s => (s.extraction {}).blanked) ∧
      (Document.ofApi (Api.ofSources {} [] {} sources)).blanked =
        (Document.ofApi (Api.ofSources {} [] {} others)).blanked ∧
      (Document.ofApi (Api.ofSources {} [] {} sources)).toJson.blank "example" =
        (Document.ofApi (Api.ofSources {} [] {} others)).toJson.blank "example" :=
  ⟨rfl, blanked_eq_of_units_eq {} [] {} rfl⟩

end ApiCollection
