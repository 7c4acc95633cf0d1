import ApiCollection.Api.Basic
import ApiCollection.Proofs.DrawnEndpoint

/-!
# Interfaces of source texts

An interface gathers what its source texts contribute, one text after the other. Gathering can give
an endpoint a new identifier; all else comes from the drafts of the texts.
-/

namespace ApiCollection

/-- A source text that is read, with the seed and the list length for its examples. -/
structure Source where
  unit : SourceUnit
  seed : UInt64
  listSize : Nat

def Source.extraction (cache : Dto.Cache) (s : Source) : Extraction :=
  s.unit.extract cache s.seed s.listSize

def Source.drafts (s : Source) : List Draft := Draft.ofSource s.unit.head s.unit.methods

def Endpoint.content {α : Type} (e : Endpoint α) : Endpoint Unit := { e.outline with id := "" }

namespace Api

/-- The interface of source texts, which are merged in the order in which they stand. -/
def ofSources (info : ApiInfo) (servers : List Server) (cache : Dto.Cache)
    (sources : List Source) : Api :=
  (sources.map (Source.extraction cache)).foldl merge { info := info, servers := servers }

theorem foldl_addSchema (schemas : Table Schema) (api : Api) :
    schemas.foldl (fun api (name, schema) => api.addSchema name schema) api =
      { api with schemas := schemas.foldl (fun t e => t.insertNew e.1 e.2) api.schemas } := by
  induction schemas generalizing api with
  | nil => rfl
  | cons e schemas ih => exact ih _

private theorem foldl_addEndpoint_schemas (es : List (Endpoint Json)) (api : Api) :
    (es.foldl addEndpoint api).schemas = api.schemas := by
  induction es generalizing api with
  | nil => rfl
  | cons e es ih => exact ih _

private theorem mem_foldl_addEndpoint {es : List (Endpoint Json)} {api : Api} {e : Endpoint Json}
    (h : e ∈ (es.foldl addEndpoint api).endpoints) :
    e ∈ api.endpoints ∨ ∃ e' ∈ es, ∃ id, e = { e' with id := id } := by
  induction es generalizing api with
  | nil => exact .inl h
  | cons first es ih =>
    rcases ih h with old | ⟨e', member, id, same⟩
    · rcases List.mem_append.1 old with old | new
      · exact .inl old
      · exact .inr ⟨first, List.mem_cons_self, _, List.mem_singleton.1 new⟩
    · exact .inr ⟨e', List.mem_cons_of_mem _ member, id, same⟩

theorem merge_schemas (api : Api) (x : Extraction) : (api.merge x).schemas =
    x.schemas.foldl (fun t e => t.insertNew e.1 e.2) api.schemas := by
  rw [merge, foldl_addSchema, foldl_addEndpoint_schemas]

/-- An endpoint behind a merge was there, or comes from the text but for its identifier. -/
theorem mem_merge {api : Api} {x : Extraction} {e : Endpoint Json}
    (h : e ∈ (api.merge x).endpoints) :
    e ∈ api.endpoints ∨ ∃ e' ∈ x.endpoints, ∃ id, e = { e' with id := id } := by
  rw [merge, foldl_addSchema] at h
  exact mem_foldl_addEndpoint h

/-- An endpoint of a source text has the outline of a draft. -/
theorem draft_of_mem_extraction {cache : Dto.Cache} {s : Source} {e : Endpoint Json}
    (h : e ∈ (s.extraction cache).endpoints) : ∃ d ∈ s.drafts, e.outline = d.outline := by
  have member : e.outline ∈ s.drafts.map Draft.outline := by
    rw [Source.drafts, ← outline_extract cache s.listSize s.unit s.seed]
    exact List.mem_map_of_mem h
  obtain ⟨d, hd, same⟩ := List.mem_map.1 member
  exact ⟨d, hd, same.symm⟩

private theorem contents_foldl_addEndpoint (es : List (Endpoint Json)) (api : Api) :
    (es.foldl addEndpoint api).endpoints.map Endpoint.content =
      api.endpoints.map Endpoint.content ++ es.map Endpoint.content := by
  induction es generalizing api with
  | nil => exact (List.append_nil _).symm
  | cons e es ih =>
    rw [List.foldl_cons, ih, addEndpoint, List.map_append, List.append_assoc]
    rfl

private theorem contents_merge (api : Api) (s : Source) (cache : Dto.Cache) :
    (api.merge (s.extraction cache)).endpoints.map Endpoint.content =
      api.endpoints.map Endpoint.content ++
        s.drafts.map fun d => { d.outline with id := "" } := by
  have laidOut : (s.extraction cache).endpoints.map Endpoint.content =
      s.drafts.map fun d => { d.outline with id := "" } := by
    have outlines := congrArg (List.map fun e : Endpoint Unit => { e with id := "" })
      (outline_extract cache s.listSize s.unit s.seed)
    rwa [List.map_map, List.map_map] at outlines
  rw [merge, foldl_addSchema, contents_foldl_addEndpoint, laidOut]

/-- The endpoints of an interface are those of the drafts of its sources, one for each. -/
theorem contents_ofSources (info : ApiInfo) (servers : List Server) (cache : Dto.Cache)
    (sources : List Source) :
    (ofSources info servers cache sources).endpoints.map Endpoint.content =
      (sources.flatMap Source.drafts).map fun d => { d.outline with id := "" } := by
  have fold (xs : List Source) (api : Api) :
      ((xs.map (Source.extraction cache)).foldl merge api).endpoints.map Endpoint.content =
        api.endpoints.map Endpoint.content ++
          (xs.flatMap Source.drafts).map fun d => { d.outline with id := "" } := by
    induction xs generalizing api with
    | nil => exact (List.append_nil _).symm
    | cons s xs ih =>
      rw [List.map_cons, List.foldl_cons, ih, contents_merge, List.flatMap_cons, List.map_append,
        List.append_assoc]
  exact fold sources _

theorem endpoints_ne_nil {info : ApiInfo} {servers : List Server} {cache : Dto.Cache}
    {sources : List Source} (drafts : sources.flatMap Source.drafts ≠ []) :
    (ofSources info servers cache sources).endpoints ≠ [] := by
  have contents := contents_ofSources info servers cache sources
  intro none
  rw [none] at contents
  exact drafts (List.map_eq_nil_iff.1 contents.symm)

/-- The endpoints of an interface are laid out by drafts of its sources. -/
theorem draft_of_mem_ofSources {info : ApiInfo} {servers : List Server} {cache : Dto.Cache}
    {sources : List Source} {e : Endpoint Json}
    (h : e ∈ (ofSources info servers cache sources).endpoints) :
    ∃ s ∈ sources, ∃ d ∈ s.drafts, e.outline = { d.outline with id := e.id } := by
  have member := List.mem_map_of_mem (f := Endpoint.content) h
  rw [contents_ofSources] at member
  obtain ⟨d, hd, same⟩ := List.mem_map.1 member
  obtain ⟨s, hs, hd⟩ := List.mem_flatMap.1 hd
  refine ⟨s, hs, d, hd, ?_⟩
  have named : e.outline = { e.content with id := e.id } := rfl
  rw [named, ← same]

end Api
end ApiCollection
