import ApiCollection.Conversion.Basic
import ApiCollection.Proofs.PrintedOperation
import Mathlib.Data.List.Perm.Basic

/-!
# Operations of a document

The document of an interface has the last endpoint of each path and method, once. The conversion
finds these endpoints again, as operations with their path, their method and their printed content.
-/

namespace ApiCollection

namespace Endpoint

/-- What tells the operations of a document apart. -/
def place {α : Type} (e : Endpoint α) : String × HttpMethod := (e.path, e.method)

/-- The endpoints that no later one with the same path and method replaces. -/
def lasts {α : Type} : List (Endpoint α) → List (Endpoint α)
  | [] => []
  | e :: rest => if rest.any fun later => later.place == e.place then lasts rest else e :: lasts rest

variable {α : Type} {es : List (Endpoint α)}

/-- An endpoint is passed over exactly when its place comes again. -/
theorem lasts_cons (e : Endpoint α) (rest : List (Endpoint α)) :
    lasts (e :: rest) =
      if e.place ∈ rest.map Endpoint.place then lasts rest else e :: lasts rest := by
  have again : (rest.any fun later => later.place == e.place) = true ↔
      e.place ∈ rest.map Endpoint.place := by
    simp [List.any_eq_true, List.mem_map]
  rw [lasts]
  exact if_congr again rfl rfl

theorem mem_lasts_cons {a e : Endpoint α} {rest : List (Endpoint α)} :
    e ∈ lasts (a :: rest) ↔ e ∈ lasts rest ∨ e = a ∧ a.place ∉ rest.map Endpoint.place := by
  rw [lasts_cons]
  split
  · rename_i again
    simp only [again, not_true_eq_false, and_false, or_false]
  · rename_i last
    rw [List.mem_cons, or_comm, and_iff_left last]

theorem place_mem_lasts_iff {place : String × HttpMethod} :
    place ∈ (lasts es).map Endpoint.place ↔ place ∈ es.map Endpoint.place := by
  induction es with
  | nil => rfl
  | cons e rest ih =>
    rw [lasts_cons, List.map_cons, List.mem_cons]
    split
    · rename_i again
      rw [ih]
      constructor
      · exact .inr
      · rintro (rfl | member)
        · exact again
        · exact member
    · rw [List.map_cons, List.mem_cons, ih]

private theorem nodup_place_lasts : ((lasts es).map Endpoint.place).Nodup := by
  induction es with
  | nil => exact List.nodup_nil
  | cons e rest ih =>
    rw [lasts_cons]
    split
    · exact ih
    · rename_i last
      rw [List.map_cons, List.nodup_cons, place_mem_lasts_iff]
      exact ⟨last, ih⟩

theorem lasts_subset : lasts es ⊆ es := by
  induction es with
  | nil => exact List.Subset.refl _
  | cons a rest ih =>
    intro e member
    obtain later | ⟨rfl, -⟩ := mem_lasts_cons.1 member
    · exact List.mem_cons_of_mem a (ih later)
    · exact List.mem_cons_self

end Endpoint

namespace OpenApi

open Endpoint

namespace Document

/-- What a document has behind some additions: the last one of the place, or what was there. -/
theorem operation?_foldl_add (es : List (Endpoint Json)) (d : Document) (path : String)
    (method : HttpMethod) (e : Endpoint Json) :
    (es.foldl add d).operation? path method = some e ↔
      (e ∈ lasts es ∧ e.place = (path, method)) ∨
        ((path, method) ∉ es.map Endpoint.place ∧ d.operation? path method = some e) := by
  induction es generalizing d with
  | nil => simp [lasts]
  | cons a rest ih =>
    have asked : (path = a.path ∧ method = a.method) ↔ (path, method) = a.place := by
      rw [place, Prod.mk.injEq]
    rw [List.foldl_cons, ih, operation?_add, mem_lasts_cons, List.map_cons, List.mem_cons,
      if_congr asked rfl rfl]
    -- The last endpoint of a place stands behind `a`, or it is `a`, or there is none.
    split
    · rename_i here
      rw [Option.some.injEq, ← here]
      constructor
      · rintro (⟨later, placed⟩ | ⟨last, rfl⟩)
        · exact .inl ⟨.inl later, placed⟩
        · exact .inl ⟨.inr ⟨rfl, last⟩, here.symm⟩
      · rintro (⟨later | ⟨rfl, last⟩, placed⟩ | ⟨absent, -⟩)
        · exact .inl ⟨later, placed⟩
        · exact .inr ⟨last, rfl⟩
        · exact absurd (.inl rfl) absent
    · rename_i apart
      constructor
      · rintro (⟨later, placed⟩ | ⟨absent, found⟩)
        · exact .inl ⟨.inl later, placed⟩
        · exact .inr ⟨not_or.2 ⟨apart, absent⟩, found⟩
      · rintro (⟨later | ⟨rfl, -⟩, placed⟩ | ⟨absent, found⟩)
        · exact .inl ⟨later, placed⟩
        · exact absurd placed.symm apart
        · exact .inr ⟨fun member => absent (.inr member), found⟩

/-- Every operation stands at its own path and method, and every path stands once. -/
structure Placed (d : Document) : Prop where
  paths : d.paths.keys.Nodup
  operations : ∀ path item, (path, item) ∈ d.paths → ∀ method e, item method = some e →
    e.place = (path, method)

/-- The operations of a document in its order. -/
def endpoints (d : Document) : List (Endpoint Json) :=
  d.paths.flatMap fun (_, item) => item.operations.map Prod.snd

end Document

theorem mem_operations {item : PathItem} {method : HttpMethod} {e : Endpoint Json} :
    (method, e) ∈ item.operations ↔ item method = some e := by
  have all : method ∈ HttpMethod.all := by cases method <;> decide
  simp only [PathItem.operations, List.mem_filterMap, Option.map_eq_some_iff, Prod.mk.injEq]
  constructor
  · rintro ⟨m, -, e', found, rfl, rfl⟩
    exact found
  · intro found
    exact ⟨method, all, e, found, rfl, rfl⟩

namespace Document

private theorem Placed.add {d : Document} (h : d.Placed) (e : Endpoint Json) :
    (d.add e).Placed := by
  refine ⟨Table.nodup_keys_insert h.paths _ _, ?_⟩
  intro path item member method e' found
  obtain ⟨rfl, rfl⟩ | old := Table.mem_insert member
  · by_cases same : method = e.method
    · rw [same, PathItem.set_same, Option.some.injEq] at found
      rw [← found, same]
      rfl
    · rw [PathItem.set_other _ _ same] at found
      cases known : d.paths.get? e.path with
      | none =>
        rw [known] at found
        cases found
      | some item =>
        rw [known] at found
        exact h.operations _ _ (Table.mem_of_get?_eq_some known) _ _ found
  · exact h.operations _ _ old _ _ found

theorem placed_ofApi (api : Api) : (ofApi api).Placed := by
  have fold (es : List (Endpoint Json)) {d : Document} (h : d.Placed) : (es.foldl add d).Placed := by
    induction es generalizing d with
    | nil => exact h
    | cons e rest ih => exact ih (h.add e)
  refine fold _ ⟨List.nodup_nil, ?_⟩
  intro path item member
  cases member

section Endpoints

variable {d : Document}

private theorem mem_endpoints (h : d.Placed) {e : Endpoint Json} :
    e ∈ d.endpoints ↔ d.operation? e.path e.method = some e := by
  simp only [endpoints, List.mem_flatMap, List.mem_map, operation?, Option.bind_eq_some_iff]
  constructor
  · rintro ⟨⟨path, item⟩, member, ⟨method, e'⟩, listed, rfl⟩
    have found := mem_operations.1 listed
    have placed := h.operations path item member method e' found
    rw [place, Prod.mk.injEq] at placed
    obtain ⟨rfl, rfl⟩ := placed
    exact ⟨item, Table.get?_eq_some_of_mem h.paths member, found⟩
  · rintro ⟨item, known, found⟩
    exact ⟨_, Table.mem_of_get?_eq_some known, (e.method, e), mem_operations.2 found, rfl⟩

private theorem nodup_endpoints (h : d.Placed) : d.endpoints.Nodup := by
  rw [endpoints, List.nodup_flatMap]
  constructor
  · rintro ⟨path, item⟩ member
    have methods : HttpMethod.all.Nodup := by decide
    have pairs : item.operations.Nodup := by
      refine methods.filterMap ?_
      intro a b x hx hy
      obtain ⟨e, -, rfl⟩ := Option.map_eq_some_iff.1 hx
      obtain ⟨e', -, same⟩ := Option.map_eq_some_iff.1 hy
      exact (Prod.mk.inj same).1.symm
    refine pairs.map_on ?_
    rintro ⟨m, e⟩ he ⟨n, e'⟩ he' same
    dsimp only at same
    subst same
    have first := h.operations path item member m e (mem_operations.1 he)
    have second := h.operations path item member n e (mem_operations.1 he')
    rw [first, Prod.mk.injEq] at second
    rw [second.2]
  · have keys : d.paths.Pairwise fun a b => a.1 ≠ b.1 := List.pairwise_map.1 h.paths
    refine keys.imp_of_mem ?_
    rintro ⟨path, item⟩ ⟨path', item'⟩ member member' ne e he he'
    obtain ⟨⟨m, e⟩, listed, rfl⟩ := List.mem_map.1 he
    obtain ⟨⟨n, e'⟩, listed', same⟩ := List.mem_map.1 he'
    dsimp only at same
    subst same
    have first := h.operations path item member m _ (mem_operations.1 listed)
    have second := h.operations path' item' member' n _ (mem_operations.1 listed')
    rw [first, Prod.mk.injEq] at second
    exact ne second.1

/-- The document of an interface has the last endpoint of each place, once. -/
theorem endpoints_ofApi_perm (api : Api) : (ofApi api).endpoints.Perm (lasts api.endpoints) := by
  have placed := placed_ofApi api
  refine (List.perm_ext_iff_of_nodup (nodup_endpoints placed) nodup_place_lasts.of_map).2 ?_
  intro e
  rw [mem_endpoints placed, ofApi, operation?_foldl_add]
  simp [operation?, place]

end Endpoints

end Document

end OpenApi

namespace Conversion

open OpenApi

def operationOf (e : Endpoint Json) : Operation := ⟨e.path, e.method.key, operationJson e, none⟩

private theorem key_mem_methodKeys (method : HttpMethod) :
    methodKeys.contains method.key = true := by
  cases method <;> decide

private theorem key_ne_parameters (method : HttpMethod) : method.key ≠ "parameters" := by
  cases method <;> decide

private theorem get?_toJson_parameters (item : PathItem) :
    item.toJson.get? "parameters" = none := by
  refine Table.get?_eq_none ?_
  intro member
  simp only [Table.keys, List.map_map, List.mem_map, Function.comp_apply] at member
  obtain ⟨⟨method, e⟩, -, same⟩ := member
  exact key_ne_parameters method same

/-- All operations of a path are found, and nothing else is taken for one. -/
theorem pathOperations_toJson (path : String) (item : PathItem) :
    pathOperations path item.toJson =
      item.operations.map fun (method, e) => ⟨path, method.key, operationJson e, none⟩ := by
  have all : (item.operations.map fun (method, e) => (method.key, operationJson e)).filter
      (fun m => methodKeys.contains m.1) =
      item.operations.map fun (method, e) => (method.key, operationJson e) := by
    rw [List.filter_eq_self]
    intro m hm
    obtain ⟨⟨method, e⟩, -, rfl⟩ := List.mem_map.1 hm
    exact key_mem_methodKeys method
  have members : item.toJson.members?.getD [] =
      item.operations.map fun (method, e) => (method.key, operationJson e) := rfl
  rw [pathOperations, members, all, get?_toJson_parameters, List.map_map]
  rfl

theorem get?_toJson_paths (d : Document) : d.toJson.get? "paths" =
    some (.object (d.paths.map fun (path, item) => (path, item.toJson))) := by
  simp [Document.toJson, Json.get?_present_cons]

/-- The operations of a printed document are those of its endpoints. -/
theorem operations_toJson {d : Document} (h : d.Placed) :
    operations d.toJson = d.endpoints.map operationOf := by
  have members : d.toJson.getMembers "paths" =
      d.paths.map fun (path, item) => (path, item.toJson) := by
    rw [Json.getMembers, get?_toJson_paths]
    rfl
  rw [operations, members, List.flatMap_map, Document.endpoints, List.map_flatMap]
  refine List.flatMap_congr ?_
  rintro ⟨path, item⟩ member
  dsimp only
  rw [pathOperations_toJson, List.map_map]
  refine List.map_inj_left.2 ?_
  rintro ⟨method, e⟩ listed
  have placed := h.operations path item member method e (mem_operations.1 listed)
  rw [Endpoint.place, Prod.mk.injEq] at placed
  obtain ⟨rfl, rfl⟩ := placed
  rfl

end Conversion
end ApiCollection
