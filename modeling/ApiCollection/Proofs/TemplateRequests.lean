import ApiCollection.Proofs.DocumentPointers
import ApiCollection.Proofs.PathParameters
import ApiCollection.Proofs.PathTemplates

/-!
# Requests of path variables

A path variable that is a whole segment becomes a reference to a variable of the collection, in the
segment and in the entry of its name. With a pattern it does not: the reference is to what stands in
the braces, and so is the variable.
-/

namespace ApiCollection

open Text OpenApi Conversion Enhancement Endpoint
open Json (nonEmpty?)

theorem Draft.path_outline (d : Draft) : d.outline.path = d.path := by
  have route := addInput_route (d.inputs.map (Input.relabel noExample))
  exact congrArg (·.2.2) (route _)

namespace Api

variable {info : ApiInfo} {servers : List Server} {cache : Dto.Cache} {sources : List Source}
  {e : Endpoint Json}

private theorem path_of_mem_ofSources (h : e ∈ (ofSources info servers cache sources).endpoints) :
    ∃ s ∈ sources, ∃ d ∈ s.drafts, e.path = d.path := by
  obtain ⟨s, hs, d, hd, same⟩ := draft_of_mem_ofSources h
  exact ⟨s, hs, d, hd, (congrArg Endpoint.path same).trans d.path_outline⟩

/-- An endpoint has a parameter for each variable that extraction finds in its path. -/
theorem templateVariables_subset (h : e ∈ (ofSources info servers cache sources).endpoints) :
    Draft.templateVariables e.path ⊆ e.parameters.path.map (·.name) := by
  obtain ⟨s, -, d, hd, same⟩ := draft_of_mem_ofSources h
  obtain ⟨m, -, laidOut⟩ := List.mem_filterMap.1 hd
  have parameters := congrArg Endpoint.parameters same
  have documents := Endpoint.documents_of_outline laidOut
    ((congrArg Endpoint.path same).trans d.path_outline) parameters
  intro name found
  exact documents.mem_names_iff.2 (.inr found)

end Api

namespace Api

def request (api : Api) (e : Endpoint Json) : RequestItem :=
  requestItem (Document.ofApi api).toJson {} (operationOf e)

/-- The requests `moved` are those of a converted and enhanced interface, one for the last endpoint
of each path and method. -/
structure Enhanced (api : Api) (enhancer : Enhancer) (converted : Collection)
    (moved : List RequestItem) : Prop where
  made : convert (Document.ofApi api).toJson {} = .ok converted
  requests : converted.requests.Perm ((lasts api.endpoints).map api.request)
  enhanced : moved.Perm (enhancer.enhance converted).1.requests
  each : List.Forall₂
    (fun e s => Enhancer.Completed enhancer.cache (prepare (api.request e)) s)
    (lasts api.endpoints) moved

private theorem exists_enhanced {api : Api} (endpoint : api.endpoints ≠ []) (enhancer : Enhancer) :
    ∃ converted moved, api.Enhanced enhancer converted moved := by
  have listed := operations_toJson (Document.placed_ofApi api)
  have operation : operations (Document.ofApi api).toJson ≠ [] := by
    obtain ⟨e, he⟩ := Document.exists_mem_endpoints_ofApi endpoint
    rw [listed]
    exact List.ne_nil_of_mem (List.mem_map_of_mem he)
  obtain ⟨converted, made, requests⟩ := convert_requests {} (get?_toJson_paths _) operation
  rw [listed, List.map_map] at requests
  have each := requests.trans ((Document.endpoints_ofApi_perm api).map api.request)
  obtain ⟨w, completed, perm⟩ := Enhancer.requests_enhance_perm enhancer converted
  obtain ⟨moved, completed, perm'⟩ := List.perm_comp_forall₂ each.symm completed
  rw [List.forall₂_map_left_iff] at completed
  exact ⟨converted, moved, made, each, perm'.trans perm, completed⟩

end Api

/-- Whether an enhanced request `s` refers to the variable of a path variable behind the text
`front` of its path: in the segment, and in the entry of its name. The request was `r`. -/
structure PathVariable.RefersIn (v : PathVariable) (front : List Char) (c : Collection)
    (r s : RequestItem) : Prop where
  segment : s.request.url.path[(slashSegments (String.ofList front)).length]? =
    some (reference (variableName v.key r.name))
  known : variableName v.key r.name ∈ c.sharedVariables.map (·.key)
  entry : ∃ entry ∈ s.request.url.pathVariables, entry.key = v.key
  value : ∀ entry ∈ s.request.url.pathVariables, entry.key = v.key →
    entry.value = reference (variableName v.key r.name)

namespace Api

variable {api : Api} {cache : Dto.Cache} {e : Endpoint Json} {s : RequestItem}

/-- The segment of a path variable refers to what stands in its braces. -/
theorem segment_of_completed (h : Enhancer.Completed cache (prepare (api.request e)) s)
    {v : PathVariable} {front : List Char} (at' : v.At e.path front) :
    s.request.url.path[(slashSegments (String.ofList front)).length]? =
      some (reference (variableName (String.ofList v.inside) (api.request e).name)) := by
  have segments : (api.request e).request.url.path =
      (slashSegments e.path).map fun segment => String.ofList (colonSegment segment) := by
    have path : (api.request e).request.url.path = addressSegments e.path := rfl
    rw [path, addressSegments, pathSegments, slashSegments, List.map_map]
    simp
  have refers : referSegment (api.request e).name (String.ofList (':' :: v.inside)) =
      reference (variableName (String.ofList v.inside) (api.request e).name) := by
    rw [referSegment, segmentVariable?, segmentParameter?_colon String.toList_ofList]
    rfl
  rw [url_of_completed h, referUrl, Url.rebuild, segments, List.getElem?_map, List.getElem?_map,
    v.slashSegments_of_at at', Option.map_some, Option.map_some, v.colonSegment_text, refers]

private theorem keys_request (api : Api) (e : Endpoint Json) :
    (api.request e).request.url.pathVariables.map (·.key) =
      (located "path" (mergeParameters (Document.ofApi api).toJson none
        (nonEmpty? (written e.parameters)))).map Prod.fst := by
  rw [← get?_operationJson_parameters]
  simp [request, requestItem, requestOf, Url.rebuild, operationOf, Function.comp_def]

private theorem mem_keys_request_iff (api : Api) {key : String} :
    key ∈ (api.request e).request.url.pathVariables.map (·.key) ↔
      key ∈ e.parameters.path.map (·.name) := by
  rw [keys_request, mem_located_path_iff]

/-- A request refers to a path variable exactly when that has no pattern and is a parameter. -/
theorem refersIn_iff_of_completed {enhancer : Enhancer} {converted : Collection}
    (member : api.request e ∈ converted.requests)
    (h : Enhancer.Completed enhancer.cache (prepare (api.request e)) s) {v : PathVariable}
    {front : List Char} (at' : v.At e.path front) :
    v.RefersIn front (enhancer.enhance converted).1 (api.request e) s ↔
      v.pattern? = none ∧ v.key ∈ e.parameters.path.map (·.name) := by
  have segment := segment_of_completed h at'
  have keys := (extends_of_completed h).entries
  constructor
  · intro refers
    constructor
    · rw [refers.segment, Option.some.injEq] at segment
      exact (v.variableName_inside_iff _).1 (reference_injective segment).symm
    · rw [← mem_keys_request_iff api, ← keys]
      exact List.mem_map.2 refers.entry
  · rintro ⟨plain, declared⟩
    rw [← mem_keys_request_iff api] at declared
    obtain ⟨old, hold, same⟩ := List.mem_map.1 declared
    rw [(v.variableName_inside_iff _).2 plain] at segment
    refine ⟨segment, ?_, ?_, ?_⟩
    · refine Collection.mem_keys_iff.2 (Enhancer.hasVariable_of_mem_referenced _ _ ?_)
      refine List.mem_flatMap.2 ⟨api.request e, member, List.mem_append_right _ ?_⟩
      rw [← same]
      exact List.mem_map_of_mem hold
    · rw [← keys] at declared
      exact List.mem_map.1 declared
    · intro entry hentry key
      rw [url_of_completed h, referUrl, Url.rebuild] at hentry
      obtain ⟨old, -, rfl⟩ := List.mem_map.1 hentry
      rw [← key]
      rfl

/-- In a converted and enhanced interface of source texts, a path variable that is a whole segment
is referred to exactly when it has no pattern and is a parameter of the endpoint. It is a parameter
unless a brace in front of it is open. -/
theorem refersIn_iff (info : ApiInfo) (servers : List Server) (cache : Dto.Cache)
    (sources : List Source) (enhancer : Enhancer) :
    let api := ofSources info servers cache sources
    api.endpoints ≠ [] → ∃ converted moved, api.Enhanced enhancer converted moved ∧
      List.Forall₂ (fun e s => ∀ (v : PathVariable) (front : List Char), v.At e.path front →
        (v.RefersIn front (enhancer.enhance converted).1 (api.request e) s ↔
          v.pattern? = none ∧ v.key ∈ e.parameters.path.map (·.name)) ∧
        (ClosedBraces front → v.key ∈ e.parameters.path.map (·.name)))
        (lasts api.endpoints) moved := by
  intro api endpoint
  obtain ⟨converted, moved, h⟩ := exists_enhanced endpoint enhancer
  refine ⟨converted, moved, h, ?_⟩
  have members := (List.forall₂_and_left _ moved).2
    ⟨fun e (he : e ∈ lasts api.endpoints) => he, h.each⟩
  refine members.imp ?_
  rintro e s ⟨he, completed⟩ v front at'
  have converted := h.requests.symm.subset (List.mem_map_of_mem he)
  refine ⟨refersIn_iff_of_completed converted completed at', fun closed => ?_⟩
  exact templateVariables_subset (lasts_subset he) (v.key_mem_templateVariables at' closed)

/-- A controller whose path has a variable with a pattern. -/
def users : Source where
  unit := {
    head := ⟨none, "UserController", []⟩
    methods := [⟨"remove", "void", "@PathVariable Long id",
      [⟨"DeleteMapping", some "\"/users/\x7bid:[0-9]+\x7d\"",
        "@DeleteMapping(\"/users/\x7bid:[0-9]+\x7d\")"⟩], 68, 4⟩] }
  seed := 42
  listSize := 2

theorem users_endpoints_ne_nil : (ofSources {} [] {} [users]).endpoints ≠ [] :=
  endpoints_ne_nil (by decide +kernel)

theorem refersIn_iff_users :
    let api := ofSources {} [] {} [users]
    let enhancer : Enhancer := { stream := .ofSeed 42 }
    api.endpoints ≠ [] ∧ ∃ converted moved, api.Enhanced enhancer converted moved ∧
      List.Forall₂ (fun e s => ∀ (v : PathVariable) (front : List Char), v.At e.path front →
        (v.RefersIn front (enhancer.enhance converted).1 (api.request e) s ↔
          v.pattern? = none ∧ v.key ∈ e.parameters.path.map (·.name)) ∧
        (ClosedBraces front → v.key ∈ e.parameters.path.map (·.name)))
        (lasts api.endpoints) moved :=
  ⟨users_endpoints_ne_nil,
    refersIn_iff {} [] {} [users] { stream := .ofSeed 42 } users_endpoints_ne_nil⟩

def userIdentifier : PathVariable where
  name := "id".toList
  pattern? := some "[0-9]+".toList
  nonempty := by decide
  word := List.all_eq_true.1 (by decide)
  plain := by decide

/-- The segment of the identifier refers to a variable with the pattern in its name. -/
theorem not_refersIn_of_pattern :
    ¬∀ (info : ApiInfo) (servers : List Server) (cache : Dto.Cache) (sources : List Source)
      (enhancer : Enhancer),
      let api := ofSources info servers cache sources
      api.endpoints ≠ [] → ∃ converted moved, api.Enhanced enhancer converted moved ∧
        List.Forall₂ (fun e s => ∀ (v : PathVariable) (front : List Char), v.At e.path front →
          v.RefersIn front (enhancer.enhance converted).1 (api.request e) s)
          (lasts api.endpoints) moved := by
  intro all
  obtain ⟨converted, moved, h, refers⟩ :=
    all {} [] {} [users] { stream := .ofSeed 42 } users_endpoints_ne_nil
  have paths : ∀ d ∈ users.drafts, d.path = "/users/\x7bid:[0-9]+\x7d" := by decide +kernel
  have each := h.each
  cases last : lasts (ofSources {} [] {} [users]).endpoints with
  | nil =>
    obtain ⟨e, he⟩ := Document.exists_mem_endpoints_ofApi users_endpoints_ne_nil
    have none' := (Document.endpoints_ofApi_perm _).subset he
    rw [last] at none'
    cases none'
  | cons e rest =>
    have he : e ∈ (ofSources {} [] {} [users]).endpoints :=
      lasts_subset (last ▸ List.mem_cons_self)
    rw [last] at each refers
    cases each with
    | cons completed _ =>
      cases refers with
      | cons refers _ =>
        obtain ⟨s, hs, d, hd, path⟩ := path_of_mem_ofSources he
        rw [List.mem_singleton.1 hs] at hd
        have at' : userIdentifier.At e.path "/users".toList := by
          rw [path, paths d hd]
          exact ⟨[], by decide, by simp⟩
        have segment := segment_of_completed completed at'
        rw [(refers _ _ at').segment, Option.some.injEq] at segment
        have plain := (userIdentifier.variableName_inside_iff _).1 (reference_injective segment).symm
        cases plain

end Api
end ApiCollection
