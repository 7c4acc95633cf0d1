import ApiCollection.Proofs.GatheredApi
import Mathlib.Data.List.Nodup
import Mathlib.Data.List.Perm.Subperm

/-!
# Identifiers of operations

An endpoint keeps its identifier when it is free, and else gets the least number from two on that
is free. There is one candidate more than there are identifiers in use, and no two candidates are
the same, so the search for a number ends. However an interface is put together, its identifiers
stay distinct and its endpoints stand in the order in which they were added.
-/

namespace ApiCollection.Api

private theorem numbered_injective {id : String} {m n : Nat} (h : numbered id m = numbered id n) :
    m = n := by
  rw [numbered, numbered, String.append_right_inj] at h
  exact Decimal.natText_injective h

/-- A number is free by the time that all identifiers in use are met. -/
theorem exists_free_number (used : List String) (id : String) :
    ∃ n, 2 ≤ n ∧ n ≤ used.length + 2 ∧ numbered id n ∉ used := by
  by_contra none'
  push Not at none'
  have subset : ((List.range (used.length + 1)).map fun n => numbered id (n + 2)) ⊆ used := by
    intro candidate member
    obtain ⟨n, hn, rfl⟩ := List.mem_map.1 member
    rw [List.mem_range] at hn
    apply none' <;> omega
  have distinct : ((List.range (used.length + 1)).map fun n => numbered id (n + 2)).Nodup := by
    apply List.nodup_range.map
    intro m n same
    have := numbered_injective same
    omega
  have fewer := (List.subperm_of_subset distinct subset).length_le
  simp only [List.length_map, List.length_range] at fewer
  omega

/-- The identifier that an endpoint gets while some are in use: its own one when it is free, else
the one with the least free number from two on. -/
inductive Assigned (used : List String) (id : String) : String → Prop where
  | own : id ∉ used → Assigned used id id
  | number {n : Nat} : id ∈ used → 2 ≤ n → numbered id n ∉ used →
      (∀ m, 2 ≤ m → m < n → numbered id m ∈ used) → Assigned used id (numbered id n)

private theorem assigned_freshId (used : List String) (id : String) :
    Assigned used id (freshId used id) := by
  rw [freshId]
  split
  · rename_i known
    have known : id ∈ used := by simpa using known
    obtain ⟨n, atLeast, atMost, free⟩ := exists_free_number used id
    dsimp only
    cases found : ((List.range (used.length + 1)).map fun n => numbered id (n + 2)).find?
        fun candidate => !used.contains candidate with
    | none =>
      have taken := List.find?_eq_none.1 found (numbered id n)
        (List.mem_map.2 ⟨n - 2, by simp; omega, by congr; omega⟩)
      simp [free] at taken
    | some candidate =>
      obtain ⟨isFree, i, hi, rfl, before⟩ := List.find?_eq_some_iff_getElem.1 found
      simp only [List.getElem_map, List.getElem_range] at isFree before ⊢
      apply Assigned.number known (by omega) (by simpa using isFree)
      intro m hm lt
      have taken := before (m - 2) (by omega)
      have same : m - 2 + 2 = m := by omega
      simpa [same] using taken
  · rename_i new
    exact .own (by simpa using new)

variable {used : List String} {id out : String}

private theorem Assigned.not_mem (h : Assigned used id out) : out ∉ used := by
  cases h with
  | own free => exact free
  | number known atLeast free least => exact free

private theorem Assigned.congr {others : List String} (same : ∀ id, id ∈ used ↔ id ∈ others)
    (h : Assigned used id out) : Assigned others id out := by
  cases h with
  | own free => exact .own (by rwa [← same])
  | number known atLeast free least =>
    refine .number ((same _).1 known) atLeast (by rwa [← same]) ?_
    intro m hm lt
    exact (same _).1 (least m hm lt)

/-- Endpoints that are stored one behind the other, each as it is given but for its identifier,
which is assigned while those in front of it are in use. -/
inductive Stored : List (Endpoint Json) → List (Endpoint Json) → Prop where
  | nil : Stored [] []
  | concat {given stored : List (Endpoint Json)} {e : Endpoint Json} {id : String} :
      Stored given stored → Assigned (stored.map (·.id)) e.id id →
      Stored (given ++ [e]) (stored ++ [{ e with id := id }])

/-- What an interface is once some endpoints are added to it, whatever else is done to it. -/
structure Registered (given : List (Endpoint Json)) (api : Api) : Prop where
  taken : ∀ id, id ∈ api.taken ↔ id ∈ api.ids
  distinct : api.ids.Nodup
  stored : Stored given api.endpoints
  searchEnds : ∀ id, ∃ n, 2 ≤ n ∧ n ≤ api.taken.length + 2 ∧ numbered id n ∉ api.taken

variable {given : List (Endpoint Json)} {api : Api}

private theorem registered_empty (info : ApiInfo) : Registered [] { info := info } where
  taken _ := Iff.rfl
  distinct := List.nodup_nil
  stored := .nil
  searchEnds id := exists_free_number [] id

theorem Registered.addEndpoint (h : Registered given api) (e : Endpoint Json) :
    Registered (given ++ [e]) (api.addEndpoint e) := by
  have assigned : Assigned api.ids e.id (freshId api.taken e.id) :=
    (assigned_freshId api.taken e.id).congr h.taken
  have ids : (api.addEndpoint e).ids = api.ids ++ [freshId api.taken e.id] := by
    simp [ids, Api.addEndpoint]
  refine ⟨?_, ?_, .concat h.stored assigned, exists_free_number _⟩
  · intro id
    rw [ids, List.mem_append, ← h.taken, List.mem_singleton]
    simp [Api.addEndpoint, or_comm]
  · rw [ids, List.nodup_append]
    refine ⟨h.distinct, List.nodup_singleton _, ?_⟩
    intro a ha b hb same
    rw [List.mem_singleton] at hb
    exact assigned.not_mem (hb ▸ same ▸ ha)

private theorem Registered.addEndpoints (h : Registered given api) (es : List (Endpoint Json)) :
    Registered (given ++ es) (es.foldl Api.addEndpoint api) := by
  induction es generalizing given api with
  | nil => simpa using h
  | cons e es ih => simpa using ih (h.addEndpoint e)

private theorem Registered.merge (h : Registered given api) (x : Extraction) :
    Registered (given ++ x.endpoints) (api.merge x) := by
  have added := h.addEndpoints x.endpoints
  rw [Api.merge, foldl_addSchema]
  exact ⟨added.taken, added.distinct, added.stored, added.searchEnds⟩

inductive Call where
  | endpoint (e : Endpoint Json)
  | schema (name : String) (schema : Schema)
  | merge (x : Extraction)
  | server (url : String)

def Call.endpoints : Call → List (Endpoint Json)
  | .endpoint e => [e]
  | .schema _ _ => []
  | .merge x => x.endpoints
  | .server _ => []

def after (api : Api) : Call → Api
  | .endpoint e => api.addEndpoint e
  | .schema name schema => api.addSchema name schema
  | .merge x => api.merge x
  | .server url => api.setServer url

private theorem Registered.after (h : Registered given api) (call : Call) :
    Registered (given ++ call.endpoints) (api.after call) := by
  cases call with
  | endpoint e => exact h.addEndpoint e
  | schema name schema =>
    simp only [Call.endpoints, List.append_nil]
    exact ⟨h.taken, h.distinct, h.stored, h.searchEnds⟩
  | merge x => exact h.merge x
  | server url =>
    simp only [Call.endpoints, List.append_nil]
    exact ⟨h.taken, h.distinct, h.stored, h.searchEnds⟩

/-- Whatever is done to a new interface, in whatever order: the identifiers in use are those of its
endpoints and distinct, and the endpoints that were added stand in order, none of them lost. -/
theorem registered_of_calls (info : ApiInfo) (calls : List Call) :
    Registered (calls.flatMap Call.endpoints) (calls.foldl after { info := info }) := by
  have run (calls : List Call) {given : List (Endpoint Json)} {api : Api}
      (h : Registered given api) :
      Registered (given ++ calls.flatMap Call.endpoints) (calls.foldl Api.after api) := by
    induction calls generalizing given api with
    | nil => simpa using h
    | cons call calls ih => simpa using ih (h.after call)
  exact run calls (registered_empty info)

/-- A name that a user wrote stands in the way of the number that a repeated name would get. -/
example : ([.plain .get "/a" "list_2", .plain .get "/b" "list", .plain .get "/c" "list"].foldl
    addEndpoint {}).ids = ["list_2", "list", "list_3"] := by decide +kernel

end ApiCollection.Api
