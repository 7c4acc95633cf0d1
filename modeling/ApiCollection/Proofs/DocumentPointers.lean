import ApiCollection.Proofs.ComponentClosure
import ApiCollection.Proofs.DocumentOperations
import ApiCollection.Proofs.GatheredApi

/-!
# References of a document

The schemas of a document refer to its components. Shapes and components are made from the same
types, so a reference leads to a component unless it is one to `Void`: a type that has no component
is still referred to when it is an argument of a collection, or the type of a parameter or a field.
-/

namespace ApiCollection

namespace Schema

mutual

/-- The references of a schema at any depth. -/
def pointers : Schema → List String
  | ⟨_, _, properties, _, items, _, reference, _⟩ =>
    reference.toList ++ (propertiesPointers properties ++ itemsPointers items)

def propertiesPointers : Option (Table Schema) → List String
  | none => []
  | some properties => tablePointers properties

def tablePointers : Table Schema → List String
  | [] => []
  | (_, schema) :: rest => schema.pointers ++ tablePointers rest

def itemsPointers : Option Schema → List String
  | none => []
  | some schema => schema.pointers

end

private theorem tablePointers_eq (t : Table Schema) :
    tablePointers t = t.flatMap fun e => e.2.pointers := by
  induction t with
  | nil => rfl
  | cons e t ih => rw [tablePointers, ih, List.flatMap_cons]

private theorem pointers_with_default (schema : Schema) (default : Option Json) :
    ({ schema with default := default } : Schema).pointers = schema.pointers := by
  cases schema
  simp [pointers]

def pointer (name : String) : String := componentsPointer ++ name

theorem pointer_injective {m n : String} (h : pointer m = pointer n) : m = n := by
  rwa [pointer, pointer, String.append_right_inj] at h

/-- The schema of a shape refers to what the shape refers to, and to nothing else. -/
theorem pointers_ofDescriptor (shape : Descriptor) :
    (ofDescriptor shape).pointers = (shape.referencedName.map pointer).toList := by
  induction shape with
  | primitive kind format => rfl
  | map => rfl
  | reference name => rfl
  | array item ih =>
    rw [Descriptor.referencedName, ← ih, ofDescriptor, array, pointers]
    simp [propertiesPointers, itemsPointers]

theorem mem_pointers_ofDescriptor {shape : Descriptor} {p : String} :
    p ∈ (ofDescriptor shape).pointers ↔
      ∃ name, shape.referencedName = some name ∧ p = pointer name := by
  simp [pointers_ofDescriptor, @eq_comm _ p]

/-- The references of a component are those of the fields of its name. -/
theorem mem_pointers_objectSchema {cache : Dto.Cache} {name p : String}
    (h : p ∈ (cache.objectSchema name).pointers) :
    ∃ found ∈ references (cache.fields name), p = pointer found := by
  rw [Dto.Cache.objectSchema, pointers, propertiesPointers, tablePointers_eq] at h
  simp only [Option.toList_none, itemsPointers, List.nil_append, List.append_nil,
    List.mem_flatMap] at h
  obtain ⟨e, member, found⟩ := h
  obtain ⟨field, hf, rfl⟩ := List.mem_map.1 (Table.mem_ofList member)
  obtain ⟨n, refers, rfl⟩ := mem_pointers_ofDescriptor.1 found
  exact ⟨n, List.mem_filterMap.2 ⟨field, hf, refers⟩, rfl⟩

end Schema

open Schema OpenApi

section Schemas

variable {α : Type}

def Input.schema : Input α → Schema
  | .parameter _ p => p.schema
  | .body b => b.schema

def Endpoint.schemas (e : Endpoint α) : List Schema :=
  e.parameters.ordered.map (·.2.schema) ++ e.body.toList.map (·.schema) ++
    e.responses.filterMap (·.schema)

def Endpoint.pointers (e : Endpoint α) : List String := e.schemas.flatMap Schema.pointers

theorem schemas_outline (e : Endpoint α) : e.outline.schemas = e.schemas := by
  have parameters : e.outline.parameters.ordered.map (·.2.schema) =
      e.parameters.ordered.map (·.2.schema) := by
    simp [Endpoint.outline, Endpoint.relabel, ParameterSet.relabel, ParameterSet.ordered,
      Parameter.relabel, Function.comp_def]
  have body : e.outline.body.toList.map (·.schema) = e.body.toList.map (·.schema) := by
    rw [Endpoint.outline, Endpoint.relabel]
    cases e.body <;> rfl
  have responses : e.outline.responses.filterMap (·.schema) = e.responses.filterMap (·.schema) :=
    List.filterMap_map
  rw [Endpoint.schemas, Endpoint.schemas, parameters, body, responses]

private theorem mem_schemas_addInput {e : Endpoint α} {input : Input α} {schema : Schema}
    (h : schema ∈ (e.addInput input).schemas) : schema ∈ e.schemas ∨ schema = input.schema := by
  cases input with
  | parameter location p =>
    cases location <;>
      simp only [Endpoint.addInput, ParameterSet.push, Endpoint.schemas, ParameterSet.ordered,
        List.map_append, List.map_cons, List.map_nil, List.mem_append, List.mem_singleton] at h <;>
      simp only [Endpoint.schemas, ParameterSet.ordered, List.map_append, List.mem_append,
        Input.schema] <;> tauto
  | body b =>
    simp only [Endpoint.addInput, Endpoint.schemas, Option.toList_some, List.map_cons, List.map_nil,
      List.mem_append, List.mem_singleton] at h
    simp only [Endpoint.schemas, List.mem_append, Input.schema]
    tauto

private theorem mem_schemas_foldl_addInput {inputs : List (Input α)} {e : Endpoint α}
    {schema : Schema}
    (h : schema ∈ (inputs.foldl Endpoint.addInput e).schemas) :
    schema ∈ e.schemas ∨ ∃ input ∈ inputs, schema = input.schema := by
  induction inputs generalizing e with
  | nil => exact .inl h
  | cons input inputs ih =>
    rcases ih h with old | ⟨later, member, same⟩
    · rcases mem_schemas_addInput old with old | new
      · exact .inl old
      · exact .inr ⟨input, List.mem_cons_self, new⟩
    · exact .inr ⟨later, List.mem_cons_of_mem _ member, same⟩

end Schemas

namespace Draft

private theorem plainResponses_schema (method : HttpMethod) (shape : Descriptor) (answer : Recipe)
    (entity path : String) :
    ∀ r ∈ plainResponses method shape answer entity path, r.response.schema = none := by
  cases method <;> simp only [plainResponses]
  case get => split <;> simp [documented]
  all_goals simp [documented, bare]

/-- Only the first response of an answer with content has a schema. -/
theorem answers_schema {method : HttpMethod} {returnType path : String} {r : DraftResponse}
    {schema : Schema} (member : r ∈ answers method returnType path)
    (h : r.response.schema = some schema) :
    (Java.TypeExpr.parse returnType).isVoid = false ∧
      schema = ofDescriptor (Java.TypeExpr.parse returnType).shape := by
  have plain := plainResponses_schema method (Java.TypeExpr.parse returnType).shape
    (answerRecipe (Java.TypeExpr.parse returnType).shape returnType
      (Java.TypeExpr.parse returnType).entityName) (Java.TypeExpr.parse returnType).entityName path
  rw [answers] at member
  revert plain member
  generalize plainResponses method _ _ _ path = planned
  intro member plain
  cases planned with
  | nil => cases member
  | cons first rest =>
    rw [List.forall_mem_cons] at plain
    rw [describeFirst] at member
    split at member
    · rcases List.mem_cons.1 member with rfl | later
      · cases plain.1.symm.trans h
      · cases (plain.2 r later).symm.trans h
    · rename_i content
      rcases List.mem_cons.1 member with rfl | later
      · exact ⟨by simpa using content, (Option.some.inj h).symm⟩
      · cases (plain.2 r later).symm.trans h

private theorem pointers_input (b : Binding) : ((input b).relabel noExample).schema.pointers =
    (ofDescriptor (Java.TypeExpr.parse b.type).shape).pointers := by
  rw [input]
  split
  · rfl
  · exact pointers_with_default _ _

/-- What a draft refers to, its shapes refer to. -/
theorem mem_pointers_outline {className base : String} {m : Java.MethodHead} {d : Draft}
    (laidOut : ofMethod? className base m = some d) {p : String} (h : p ∈ d.outline.pointers) :
    ∃ shape ∈ d.shapes, ∃ name, shape.referencedName = some name ∧ p = pointer name := by
  simp only [ofMethod?, Option.bind_eq_bind, Option.bind_eq_some_iff, Option.pure_def,
    Option.some.injEq] at laidOut
  obtain ⟨mapping, -, rfl⟩ := laidOut
  simp only [Endpoint.pointers, List.mem_flatMap] at h
  obtain ⟨schema, member, hp⟩ := h
  rcases mem_schemas_foldl_addInput member with response | ⟨i, hi, rfl⟩
  · -- Without its inputs, a draft has the schemas of its responses.
    simp only [Endpoint.schemas, ParameterSet.ordered, List.map_nil, List.append_nil,
      Option.toList_none, List.nil_append, List.mem_filterMap, List.mem_map] at response
    obtain ⟨_, ⟨r, hr, rfl⟩, described⟩ := response
    split at hr
    · obtain ⟨content, rfl⟩ := answers_schema hr described
      obtain ⟨name, refers, rfl⟩ := mem_pointers_ofDescriptor.1 hp
      refine ⟨_, List.mem_append_right _ ?_, name, refers, rfl⟩
      have some' : (answers mapping.method (String.ofList (Text.trim m.returnType.toList))
          (rooted (Mapping.joinPath base mapping.path))).isEmpty = false := by
        rw [List.isEmpty_eq_false_iff]
        exact List.ne_nil_of_mem hr
      rename_i returns
      simp [returns, some', content]
    · cases hr
  · rw [List.map_append, List.mem_append, List.map_map, List.mem_map, List.map_map, List.mem_map]
      at hi
    rcases hi with ⟨b, hb, rfl⟩ | ⟨name, -, rfl⟩
    · rw [Function.comp_apply, pointers_input] at hp
      obtain ⟨name, refers, rfl⟩ := mem_pointers_ofDescriptor.1 hp
      exact ⟨_, List.mem_append_left _ (List.mem_map_of_mem hb), name, refers, rfl⟩
    · cases hp

end Draft

def OpenApi.Document.pointers (d : Document) : List String :=
  d.endpoints.flatMap Endpoint.pointers ++ d.schemas.flatMap fun e => e.2.pointers

def OpenApi.Document.Resolves (d : Document) (p : String) : Prop :=
  ∃ name ∈ d.schemas.keys, p = componentsPointer ++ name

/-- Whether a table has the component that a reference leads to, unless it leads to `Void`. -/
def Leads (table : Table Schema) (p : String) : Prop :=
  ∃ name, p = pointer name ∧ (name ≠ "Void" → table.has name = true)

private theorem Leads.mono {table more : Table Schema} {p : String} (h : Leads table p)
    (kept : ∀ name, table.has name = true → more.has name = true) : Leads more p := by
  obtain ⟨name, same, has⟩ := h
  exact ⟨name, same, fun ne => kept name (has ne)⟩

/-- An interface whose endpoints refer to components only, and whose components are closed. -/
structure Api.Connected (cache : Dto.Cache) (api : Api) : Prop where
  closed : Closed cache api.schemas
  endpoints : ∀ e ∈ api.endpoints, ∀ p ∈ e.pointers, Leads api.schemas p

namespace Api

variable {cache : Dto.Cache}

/-- The endpoints of a source text refer to components of the text. -/
theorem leads_of_mem_extraction {s : Source} {e : Endpoint Json}
    (h : e ∈ (s.extraction cache).endpoints) :
    ∀ p ∈ e.pointers, Leads (s.extraction cache).schemas p := by
  intro p hp
  obtain ⟨d, hd, same⟩ := draft_of_mem_extraction h
  rw [Endpoint.pointers, ← schemas_outline, same] at hp
  obtain ⟨m, -, laidOut⟩ := List.mem_filterMap.1 hd
  obtain ⟨shape, hs, name, refers, rfl⟩ := Draft.mem_pointers_outline laidOut hp
  have shapes : shape ∈ s.drafts.flatMap (·.shapes) := List.mem_flatMap.2 ⟨d, hd, hs⟩
  exact ⟨name, rfl, (closed_components _).2 shape shapes name refers⟩

private theorem Connected.merge {api : Api} (h : Connected cache api) (s : Source) :
    Connected cache (api.merge (s.extraction cache)) := by
  have components : Closed cache (s.extraction cache).schemas := (closed_components _).1
  obtain ⟨closed, keys⟩ := h.closed.union components
  rw [← merge_schemas] at closed keys
  refine ⟨closed, ?_⟩
  intro e member p hp
  rcases mem_merge member with old | ⟨e', new, id, rfl⟩
  · exact (h.endpoints e old p hp).mono fun name has => (keys name).2 (.inl has)
  · exact (leads_of_mem_extraction new p hp).mono fun name has => (keys name).2 (.inr has)

theorem connected_ofSources (info : ApiInfo) (servers : List Server) (cache : Dto.Cache)
    (sources : List Source) : Connected cache (ofSources info servers cache sources) := by
  have fold (api : Api) (h : Connected cache api) :
      Connected cache ((sources.map (Source.extraction cache)).foldl Api.merge api) := by
    induction sources generalizing api with
    | nil => exact h
    | cons s sources ih => exact ih _ (h.merge s)
  exact fold _ ⟨⟨rfl, by simp, by simp [Table.has]⟩, by simp⟩

end Api

namespace OpenApi.Document

theorem schemas_ofApi (api : Api) : (ofApi api).schemas = api.schemas := by
  have fold (es : List (Endpoint Json)) (d : Document) : (es.foldl add d).schemas = d.schemas := by
    induction es generalizing d with
    | nil => rfl
    | cons e es ih => exact ih _
  exact fold _ _

private theorem leads_of_mem_pointers {cache : Dto.Cache} {api : Api} (h : api.Connected cache)
    {p : String}
    (member : p ∈ (ofApi api).pointers) : Leads api.schemas p := by
  rw [pointers, schemas_ofApi, List.mem_append, List.mem_flatMap, List.mem_flatMap] at member
  rcases member with ⟨e, he, hp⟩ | ⟨⟨name, schema⟩, entry, hp⟩
  · have kept := Endpoint.lasts_subset ((endpoints_ofApi_perm api).subset he)
    exact h.endpoints e kept p hp
  · have made : schema = cache.objectSchema name := h.closed.schema _ entry
    rw [made] at hp
    obtain ⟨found, refers, rfl⟩ := mem_pointers_objectSchema hp
    have has : api.schemas.has name = true := Table.has_iff.2 ⟨_, entry, rfl⟩
    exact ⟨found, rfl, h.closed.closed name has found refers⟩

/-- A reference in the document of some sources, whatever they are and in whatever order they are
merged, leads to a component exactly when it is not the one to `Void`. -/
theorem resolves_iff_ne_void (info : ApiInfo) (servers : List Server) (cache : Dto.Cache)
    (sources : List Source) :
    let document := ofApi (Api.ofSources info servers cache sources)
    ∀ p ∈ document.pointers,
      document.Resolves p ↔ p ≠ componentsPointer ++ "Void" := by
  intro document p member
  have connected := Api.connected_ofSources info servers cache sources
  obtain ⟨name, rfl, has⟩ := leads_of_mem_pointers connected member
  have keys : ∀ n, n ∈ document.schemas.keys ↔
      (Api.ofSources info servers cache sources).schemas.has n = true := by
    intro n
    rw [Table.mem_keys_iff, schemas_ofApi]
  constructor
  · rintro ⟨n, hn, same⟩ void
    have named : n = "Void" := pointer_injective (same.symm.trans void)
    rw [keys, named, connected.closed.void] at hn
    cases hn
  · intro ne
    exact ⟨name, (keys name).2 (has fun void => ne (congrArg pointer void)), rfl⟩

theorem exists_mem_endpoints_ofApi {api : Api} (h : api.endpoints ≠ []) :
    ∃ e, e ∈ (ofApi api).endpoints := by
  obtain ⟨e, he⟩ := List.exists_mem_of_ne_nil _ h
  obtain ⟨e', member, -⟩ := List.mem_map.1
    (Endpoint.place_mem_lasts_iff.2 (List.mem_map_of_mem (f := Endpoint.place) he))
  exact ⟨e', (endpoints_ofApi_perm api).symm.subset member⟩

/-- A controller with a method that gives a stream of nothing. -/
def tasks : Source where
  unit := {
    head := ⟨none, "TaskController", []⟩
    methods := [⟨"runAll", "Flux<Void>", "",
      [⟨"PostMapping", some "\"/tasks\"", "@PostMapping(\"/tasks\")"⟩], 68, 4⟩] }
  seed := 42
  listSize := 2

/-- The answer of a stream of nothing refers to a component that is not there. -/
theorem not_resolves_of_voidStream :
    ¬∀ (info : ApiInfo) (servers : List Server) (cache : Dto.Cache) (sources : List Source),
      ∀ p ∈ (ofApi (Api.ofSources info servers cache sources)).pointers,
        (ofApi (Api.ofSources info servers cache sources)).Resolves p := by
  intro all
  have refers : ∀ d ∈ tasks.drafts, pointer "Void" ∈ d.outline.pointers := by decide +kernel
  -- Drawn examples are not evaluated: an endpoint has the references of its draft.
  obtain ⟨e, he⟩ : ∃ e, e ∈ (ofApi (Api.ofSources {} [] {} [tasks])).endpoints :=
    exists_mem_endpoints_ofApi (Api.endpoints_ne_nil (by decide +kernel))
  obtain ⟨s, hs, d, hd, same⟩ :=
    Api.draft_of_mem_ofSources (Endpoint.lasts_subset ((endpoints_ofApi_perm _).subset he))
  rw [List.mem_singleton.1 hs] at hd
  have hp : pointer "Void" ∈ e.pointers := by
    rw [Endpoint.pointers, ← schemas_outline, same]
    exact refers d hd
  obtain ⟨name, key, equal⟩ :=
    all {} [] {} [tasks] _ (List.mem_append_left _ (List.mem_flatMap.2 ⟨e, he, hp⟩))
  have connected := Api.connected_ofSources {} [] {} [tasks]
  rw [← pointer_injective equal, Table.mem_keys_iff, schemas_ofApi, connected.closed.void] at key
  cases key

end OpenApi.Document
end ApiCollection
