import ApiCollection.OpenApi.Reading
import ApiCollection.Proofs.DocumentOperations

/-!
# What a document keeps of its endpoints

A document has, for each path and method, the last endpoint that was added with them. Its paths
stand where they are first met. An endpoint is either an operation of the document or was replaced,
so that both together count the endpoints; and a document can be used when there is one at all.
-/

namespace ApiCollection.OpenApi

open Json (nonEmpty?)

section Operations

variable (item : PathItem) (method : HttpMethod)

private theorem key_injective {m n : HttpMethod} (h : m.key = n.key) : m = n := by
  have back (m : HttpMethod) : HttpMethod.all.find? (·.key == m.key) = some m := by
    cases m <;> decide
  have same := back m
  rw [h, back n] at same
  exact (Option.some.inj same).symm

private theorem length_operations : item.operations.length =
    (HttpMethod.all.map fun m => if (item m).isSome then 1 else 0).sum := by
  rw [PathItem.operations]
  induction HttpMethod.all with
  | nil => rfl
  | cons m ms ih =>
    rw [List.map_cons, List.sum_cons, ← ih]
    cases h : item m <;> simp [h, Nat.add_comm]

/-- An operation is a new one, or takes the place of another one. -/
theorem length_operations_set (e : Endpoint Json) :
    (item.set e).operations.length + (if (item e.method).isSome then 1 else 0) =
      item.operations.length + 1 := by
  simp only [length_operations, HttpMethod.all, PathItem.set, List.map_cons, List.map_nil,
    List.sum_cons, List.sum_nil]
  obtain ⟨_, method⟩ := e
  cases method <;> simp <;> omega

private theorem get?_pathItem_toJson :
    item.toJson.get? method.key = (item method).map operationJson := by
  have listed (ms : List HttpMethod) : Table.get?
      ((ms.filterMap fun m => (item m).map fun e => (m, e)).map fun e =>
        (e.1.key, operationJson e.2)) method.key =
      if method ∈ ms then (item method).map operationJson else none := by
    induction ms with
    | nil => rfl
    | cons m ms ih =>
      by_cases same : m = method
      · subst same
        cases h : item m with
        | none =>
          rw [h] at ih
          simp [h, ih]
        | some e => simp [h, Table.get?_cons]
      · have apart : method.key ≠ m.key := fun keys => same (key_injective keys).symm
        cases h : item m <;> simp [h, ih, Table.get?_cons, apart, Ne.symm same]
  have all : method ∈ HttpMethod.all := by cases method <;> decide
  exact (listed HttpMethod.all).trans (if_pos all)

end Operations

namespace Document

/-- The last endpoint with a path and a method. -/
def lastAt (es : List (Endpoint Json)) (path : String) (method : HttpMethod) :
    Option (Endpoint Json) :=
  (es.filter fun e => e.path == path && e.method == method).getLast?

private theorem lastAt_concat (es : List (Endpoint Json)) (e : Endpoint Json) (path : String)
    (method : HttpMethod) : lastAt (es ++ [e]) path method =
      if path = e.path ∧ method = e.method then some e else lastAt es path method := by
  by_cases here : path = e.path ∧ method = e.method
  · simp [lastAt, here]
  · have other : (e.path == path && e.method == method) = false := by
      rw [Bool.eq_false_iff]
      intro same
      simp only [Bool.and_eq_true, beq_iff_eq] at same
      exact here ⟨same.1.symm, same.2.symm⟩
    simp [lastAt, here, other]

/-- What a document records of the endpoints that were added to it. -/
structure Records (es : List (Endpoint Json)) (d : Document) : Prop where
  last : ∀ path method, d.operation? path method = lastAt es path method
  paths : d.paths.keys = (es.map (·.path)).eraseDups
  counted : d.operationCount + d.overwritten = es.length

private theorem operationCount_eq (d : Document) :
    d.operationCount = (d.paths.map fun e => e.2.operations.length).sum := by
  rw [operationCount, List.length_flatMap]

private theorem operationCount_add (d : Document) (e : Endpoint Json) :
    (d.add e).operationCount + (d.add e).overwritten = d.operationCount + d.overwritten + 1 := by
  have inserted := Table.sum_insert (fun item : PathItem => item.operations.length) d.paths e.path
    (((d.paths.get? e.path).getD .empty).set e)
  have set := length_operations_set ((d.paths.get? e.path).getD .empty) e
  have known : ((d.paths.get? e.path).getD .empty).operations.length =
      ((d.paths.get? e.path).map fun item => item.operations.length).getD 0 := by
    cases d.paths.get? e.path <;> rfl
  rw [operationCount_eq, operationCount_eq, add]
  dsimp only
  omega

variable {es : List (Endpoint Json)} {d : Document}

private theorem Records.add (h : Records es d) (e : Endpoint Json) :
    Records (es ++ [e]) (d.add e) where
  last path method := by rw [operation?_add, lastAt_concat, h.last]
  paths := by
    rw [List.map_append]
    exact Table.keys_insert_of_eraseDups h.paths _ _
  counted := by rw [operationCount_add, h.counted, List.length_append, List.length_singleton]

private theorem records_ofApi (api : Api) : Records api.endpoints (ofApi api) := by
  rw [ofApi]
  induction api.endpoints using List.reverseRecOn with
  | nil => exact ⟨fun _ _ => rfl, rfl, rfl⟩
  | append_singleton es e ih =>
    rw [List.foldl_concat]
    exact ih.add e

private theorem Records.paths_eq_nil_iff (h : Records es d) : d.paths = [] ↔ es = [] := by
  have keys : d.paths = [] ↔ d.paths.keys = [] := by simp [Table.keys]
  rw [keys, h.paths]
  simp only [List.eq_nil_iff_forall_not_mem, List.mem_eraseDups, List.mem_map]
  constructor
  · intro none' e member
    exact none' e.path ⟨e, member, rfl⟩
  · rintro none' path ⟨e, member, -⟩
    exact none' e member

/-- The operations of a document stand in its JSON object under their paths and methods. -/
theorem follow?_toJson (d : Document) (path : String) (method : HttpMethod) :
    d.toJson.follow? ["paths", path, method.key] =
      (d.operation? path method).map operationJson := by
  have paths : d.toJson.step? "paths" =
      some (.object (d.paths.map fun e => (e.1, e.2.toJson))) := Conversion.get?_toJson_paths d
  have item : (Json.object (d.paths.map fun e => (e.1, e.2.toJson))).step? path =
      (d.paths.get? path).map PathItem.toJson := Table.get?_map_values _ _ _
  rw [Json.follow?_cons, paths, Option.bind_some, Json.follow?_cons, item, operation?]
  cases d.paths.get? path with
  | none => rfl
  | some found =>
    have content : found.toJson.step? method.key = (found method).map operationJson :=
      get?_pathItem_toJson found method
    rw [Option.map_some, Option.bind_some, Json.follow?_cons, content, Option.bind_some]
    cases found method <;> rfl

/-- A document can be used once it has a path. -/
theorem defect?_toJson (d : Document) :
    defect? d.toJson = if d.paths.isEmpty then some .noPaths else none := by
  have paths : d.toJson.getMembers "paths" = d.paths.map fun e => (e.1, e.2.toJson) := by
    rw [Json.getMembers, Conversion.get?_toJson_paths]
    rfl
  have version : ∀ members, d.toJson.members? = some members → versionDefect? members = none := by
    intro members same
    have named : d.toJson.get? "openapi" = some (.string formatVersion) := by
      simp [Document.toJson, Json.get?_present_cons]
    have known : Text.startsWith ['3', '.'] (versionText (.string formatVersion)).toList = true := by
      decide
    rw [Json.get?, same, Option.bind_some] at named
    rw [versionDefect?, named]
    exact if_pos known
  rw [defect?]
  cases object : d.toJson.members? with
  | none => cases object
  | some members =>
    dsimp only
    rw [version members object, paths, Option.none_or, List.isEmpty_map]

end Document

/-- What the document of an interface accounts for. -/
structure Accounts (api : Api) (d : Document) : Prop extends Document.Records api.endpoints d where
  printed : ∀ path method, d.toJson.follow? ["paths", path, method.key] =
    (Document.lastAt api.endpoints path method).map operationJson
  parameters : ∀ path method e, Document.lastAt api.endpoints path method = some e →
    (operationJson e).get? "parameters" = nonEmpty? (e.parameters.path.map (parameterJson .path) ++
      e.parameters.query.map (parameterJson .query) ++
      e.parameters.header.map (parameterJson .header))
  accepted : defect? d.toJson = none ↔ api.endpoints ≠ []

/-- The last endpoint of a path and a method wins, the others are counted as replaced, and the
document of an interface with endpoints can be used. -/
theorem accounts_ofApi (api : Api) : Accounts api (Document.ofApi api) where
  toRecords := Document.records_ofApi api
  printed path method := by
    rw [Document.follow?_toJson, (Document.records_ofApi api).last]
  parameters path method e _ := by
    rw [Conversion.get?_operationJson_parameters, Conversion.written_eq]
  accepted := by
    rw [Document.defect?_toJson, ne_eq, ← (Document.records_ofApi api).paths_eq_nil_iff]
    simp

end ApiCollection.OpenApi
