import ApiCollection.Proofs.CollectionReading
import ApiCollection.Proofs.ConvertedApi
import ApiCollection.Proofs.Enhancement
import ApiCollection.Proofs.SettledValues

/-!
# Round trips of collections

The options of bodies are settled in every collection that is read or converted, and stay so in every
pass over it. So every collection that can be obtained is read as it is written.
-/

namespace ApiCollection

open Enhancement ApiCollection.Random
open Json (needed? optional? list?)

section Read

variable {α : Type} {read : Json → Option α}

private theorem exists_of_needed? {field : Option Json} {a : α} (h : needed? read field = some a) :
    ∃ j, read j = some a := by
  obtain ⟨j, -, found⟩ := Option.bind_eq_some_iff.1 h
  exact ⟨j, found⟩

theorem exists_of_optional? {field : Option Json} {a? : Option α}
    (h : optional? read field = some a?) : ∀ a ∈ a?, ∃ j, read j = some a := by
  rintro a rfl
  unfold optional? at h
  split at h
  · cases h
  · cases h
  · exact ⟨_, by simpa using h⟩

theorem exists_of_mapM {js : List Json} {items : List α} (h : js.mapM read = some items) :
    ∀ a ∈ items, ∃ j ∈ js, read j = some a := by
  induction js generalizing items with
  | nil =>
    obtain rfl := Option.some.inj h
    exact nofun
  | cons j js ih =>
    rw [List.mapM_cons] at h
    obtain ⟨first, found, h⟩ := Option.bind_eq_some_iff.1 h
    obtain ⟨rest, later, h⟩ := Option.bind_eq_some_iff.1 h
    obtain rfl := Option.some.inj h
    rw [List.forall_mem_cons]
    refine ⟨⟨j, List.mem_cons_self, found⟩, fun a ha => ?_⟩
    obtain ⟨k, member, found⟩ := ih later a ha
    exact ⟨k, List.mem_cons_of_mem j member, found⟩

theorem exists_of_listField? {field : Option Json} {items : List α}
    (h : listField? read field = some items) : ∀ a ∈ items, ∃ j, read j = some a := by
  cases field with
  | none =>
    obtain rfl := Option.some.inj h
    exact nofun
  | some j =>
    obtain ⟨js, -, found⟩ := Option.bind_eq_some_iff.1 h
    intro a ha
    obtain ⟨k, -, found⟩ := exists_of_mapM found a ha
    exact ⟨k, found⟩

end Read

private theorem Payload.settled_of_ofJson? {j : Json} {b : Payload}
    (h : Payload.ofJson? j = some b) :
    b.Settled := by
  obtain ⟨fields, -, h⟩ := Option.bind_eq_some_iff.1 h
  split at h
  · simp only [Option.bind_eq_bind, Option.bind_eq_some_iff, Option.pure_def, Option.some.injEq] at h
    obtain ⟨mode, -, raw, -, rfl⟩ := h
    exact Json.settled_settled _
  · cases h

theorem Request.settled_of_ofJson? {j : Json} {r : Request} (h : Request.ofJson? j = some r) :
    r.Settled := by
  obtain ⟨fields, -, h⟩ := Option.bind_eq_some_iff.1 h
  split at h
  · simp only [Option.bind_eq_bind, Option.bind_eq_some_iff, Option.pure_def, Option.some.injEq] at h
    obtain ⟨method, -, headers, -, body, read, url, -, description, -, rfl⟩ := h
    intro b hb
    obtain ⟨written, found⟩ := exists_of_optional? read b hb
    exact Payload.settled_of_ofJson? found
  · cases h

private theorem SavedResponse.settled_of_ofJson? {j : Json} {s : SavedResponse}
    (h : SavedResponse.ofJson? j = some s) : ∀ q ∈ s.request, q.Settled := by
  obtain ⟨fields, -, h⟩ := Option.bind_eq_some_iff.1 h
  split at h
  · simp only [Option.bind_eq_bind, Option.bind_eq_some_iff, Option.pure_def, Option.some.injEq] at h
    obtain ⟨name, -, request, read, status, -, code, -, language, -, headers, -, body, -, rfl⟩ := h
    intro q hq
    obtain ⟨written, found⟩ := exists_of_optional? read q hq
    exact Request.settled_of_ofJson? found
  · cases h

private theorem RequestItem.settled_of_ofJson? {j : Json} {r : RequestItem}
    (h : RequestItem.ofJson? j = some r) : r.Settled := by
  obtain ⟨fields, -, h⟩ := Option.bind_eq_some_iff.1 h
  split at h
  · simp only [Option.bind_eq_bind, Option.bind_eq_some_iff, Option.pure_def, Option.some.injEq] at h
    obtain ⟨name, -, request, read, responses, list, rfl⟩ := h
    obtain ⟨written, found⟩ := exists_of_needed? read
    refine ⟨Request.settled_of_ofJson? found, ?_⟩
    intro s hs
    obtain ⟨example', found⟩ := exists_of_listField? list s hs
    exact SavedResponse.settled_of_ofJson? found
  · cases h

namespace Item

private theorem ofMembers?_eq_some {members : List (String × Json)} {items : List Item}
    (h : ofMembers? members = some items) :
    ∃ key js, (key, Json.array js) ∈ members ∧ ofList? js = some items := by
  induction members with
  | nil => cases h
  | cons m rest ih =>
    obtain ⟨key, value⟩ := m
    rw [ofMembers?] at h
    split at h
    · cases value with
      | array js => exact ⟨key, js, List.mem_cons_self, h⟩
      | _ => cases h
    · obtain ⟨other, js, member, found⟩ := ih h
      exact ⟨other, js, List.mem_cons_of_mem _ member, found⟩

/-- A node is read as a folder of smaller values, or as a request. -/
theorem ofJson?_cases {j : Json} {i : Item} (h : ofJson? j = some i) :
    (∃ name description items js, i = .folder name description items ∧ ofList? js = some items ∧
      sizeOf js < sizeOf j) ∨ ∃ r, i = .request r ∧ RequestItem.ofJson? j = some r := by
  have request (found : (RequestItem.ofJson? j).map Item.request = some i) :
      ∃ r, i = .request r ∧ RequestItem.ofJson? j = some r := by
    obtain ⟨r, read, rfl⟩ := Option.map_eq_some_iff.1 found
    exact ⟨r, rfl, read⟩
  rw [ofJson?.eq_def] at h
  split at h
  · rename_i members
    split at h
    · rename_i name description items _ found
      obtain rfl := Option.some.inj h
      obtain ⟨key, js, member, read⟩ := ofMembers?_eq_some found
      have smaller := List.sizeOf_lt_of_mem member
      refine .inl ⟨name, description, items, js, rfl, read, ?_⟩
      simp only [Prod.mk.sizeOf_spec, Json.array.sizeOf_spec, Json.object.sizeOf_spec] at smaller ⊢
      omega
    · exact .inr (request h)
  · rename_i js
    split at h
    · rename_i name description items _ _ found
      obtain rfl := Option.some.inj h
      refine .inl ⟨name, description, items, js, rfl, found, ?_⟩
      simp only [Json.array.sizeOf_spec, List.cons.sizeOf_spec]
      omega
    · exact .inr (request h)
  · exact .inr (request h)

private theorem settled_of_ofJson? {j : Json} {i : Item} (h : ofJson? j = some i) :
    ∀ r ∈ i.requests, r.Settled := by
  obtain ⟨name, description, items, js, rfl, read, smaller⟩ | ⟨r, rfl, read⟩ := ofJson?_cases h
  · rw [ofList?_eq_mapM] at read
    rw [requests_folder]
    intro r hr
    obtain ⟨i, hi, hr⟩ := List.mem_flatMap.1 hr
    obtain ⟨k, member, found⟩ := exists_of_mapM read i hi
    have := List.sizeOf_lt_of_mem member
    exact settled_of_ofJson? found r hr
  · simpa using RequestItem.settled_of_ofJson? read
termination_by sizeOf j

end Item

private theorem Collection.settled_of_ofJson? {j : Json} {c : Collection}
    (h : Collection.ofJson? j = some c) : c.Settled := by
  obtain ⟨fields, -, h⟩ := Option.bind_eq_some_iff.1 h
  split at h
  · simp only [Option.bind_eq_bind, Option.bind_eq_some_iff, Option.pure_def, Option.some.injEq] at h
    obtain ⟨info, -, items, list, shared, -, rfl⟩ := h
    rw [Collection.Settled, Collection.requests, Item.requestsOf_eq_flatMap]
    intro r hr
    obtain ⟨i, hi, hr⟩ := List.mem_flatMap.1 hr
    obtain ⟨k, found⟩ := exists_of_listField? list i hi
    exact Item.settled_of_ofJson? found r hr
  · cases h

namespace Conversion

private theorem settled_json (raw : String) : (Payload.json raw).Settled := rfl

private theorem settled_requestOf (document : Json) (options : Options) (o : Operation)
    (parameters : List Json) : (requestOf document options o parameters).Settled := by
  intro b hb
  obtain ⟨media, -, rfl⟩ := Option.map_eq_some_iff.1 hb
  exact settled_json _

/-- The request of an example differs from that of its operation in its headers only. -/
theorem settled_savedResponses (document : Json) (options : Options) (content : Json)
    {request : Request} (settled : request.Settled) :
    ∀ s ∈ savedResponses document options content request, ∀ q ∈ s.request, q.Settled := by
  intro s hs q hq
  obtain ⟨response, -, rfl⟩ := List.mem_map.1 hs
  obtain rfl := Option.some.inj hq
  split <;> exact settled

private theorem settled_requestItem (document : Json) (options : Options) (o : Operation) :
    (requestItem document options o).Settled :=
  ⟨settled_requestOf _ _ _ _, settled_savedResponses _ _ _ (settled_requestOf _ _ _ _)⟩

/-- The requests of a converted collection are those of the operations. -/
theorem requests_perm_of_convert {document : Json} {options : Options} {c : Collection}
    (h : convert document options = .ok c) :
    c.requests.Perm ((operations document).map (requestItem document options)) := by
  unfold convert at h
  split at h
  · cases h
  · extract_lets grouped empty info collection at h
    split at h
    · cases h
    · obtain rfl := Except.ok.inj h
      have folded := foldl_add_requests_perm (folder? options.grouping)
        (requestItem document options) (operations document) {}
      rw [← requestsOf_items] at folded
      exact folded

private theorem settled_of_convert {document : Json} {options : Options} {c : Collection}
    (h : convert document options = .ok c) : c.Settled := by
  intro r hr
  obtain ⟨o, -, rfl⟩ := List.mem_map.1 ((requests_perm_of_convert h).subset hr)
  exact settled_requestItem document options o

end Conversion

namespace Collection

theorem Settled.of_items {c d : Collection} (settled : c.Settled) (same : d.items = c.items) :
    d.Settled := by
  rw [Settled, requests, same]
  exact settled

theorem Settled.mapRequests {c : Collection} (settled : c.Settled) {f : RequestItem → RequestItem}
    (keeps : ∀ r, r.Settled → (f r).Settled) : (c.mapRequests f).Settled := by
  rw [mapRequests_eq, Settled, requests, requests_map]
  intro r hr
  obtain ⟨old, member, rfl⟩ := List.mem_map.1 hr
  exact keeps old (settled old member)

theorem Settled.sort {c : Collection} (settled : c.Settled) : c.sort.Settled := fun r hr =>
  settled r ((Enhancer.requestsOf_sortItems_perm c.items).subset hr)

end Collection

/-- A response that is added answers no request. -/
theorem Enhancement.mem_addPlanned {cache : Dto.Cache} {entity path : String}
    {responses : List SavedResponse} {plan : Plan} {s : Stream} {r : SavedResponse}
    (h : r ∈ ((addPlanned cache entity path responses plan).run s).1) :
    r ∈ responses ∨ r.request = none := by
  rw [addPlanned] at h
  split at h
  · exact .inl h
  · obtain old | new := List.mem_append.1 h
    · exact .inl old
    · rw [List.mem_singleton.1 new]
      exact .inr rfl

private theorem Enhancement.mem_foldlM_addPlanned {cache : Dto.Cache} {entity path : String}
    {responses : List SavedResponse} {planned : List Plan} {s : Stream} {r : SavedResponse}
    (h : r ∈ ((planned.foldlM (addPlanned cache entity path) responses).run s).1) :
    r ∈ responses ∨ r.request = none := by
  induction planned generalizing responses s with
  | nil => exact .inl h
  | cons plan planned ih =>
    rw [List.foldlM_cons] at h
    obtain old | new := ih h
    · exact mem_addPlanned old
    · exact .inr new

private theorem Enhancement.settled_completeResponses (cache : Dto.Cache) {r : RequestItem}
    (settled : r.Settled) (s : Stream) : ((completeResponses cache r).run s).1.Settled := by
  refine ⟨settled.request, ?_⟩
  intro response member q hq
  obtain old | new := mem_foldlM_addPlanned member
  · exact settled.responses response old q hq
  · rw [new] at hq
    cases hq

namespace Enhancer

variable (e : Enhancer) {c : Collection} (settled : c.Settled)

include settled

theorem settled_addVariables : (e.addVariables c).Settled :=
  settled.of_items (addVariables_items e c)

theorem settled_referVariables : (e.referVariables c).1.Settled := by
  have referred : (c.mapRequests referRequest).Settled :=
    settled.mapRequests fun _ hr => ⟨hr.request, hr.responses⟩
  exact referred.of_items (Collection.addVariables_items _ _)

theorem settled_completeResponses : (e.completeResponses c).1.Settled := by
  have folders : Item.Alike (Completed e.cache) (.folder "" none c.items)
      (.folder "" none (e.completeResponses c).1.items) := .folder (Item.visitAll_alike _ _ _)
  intro s hs
  obtain ⟨r, hr, stream, rfl⟩ := (forall₂_members folders.requests).2 s hs
  exact Enhancement.settled_completeResponses e.cache (settled r hr) stream

end Enhancer

namespace Collection

variable {c : Collection} (settled : c.Settled)

include settled

private theorem settled_setBaseUrl (url : String) : (c.setBaseUrl url).Settled := by
  refine settled.of_items ?_
  rw [setBaseUrl, setVariable]
  split
  · rfl
  · exact addVariable_items c _ _

theorem settled_completeHeaders : c.completeHeaders.Settled :=
  settled.mapRequests fun _ hr => ⟨hr.request, hr.responses⟩

theorem settled_improveNames : c.improveNames.Settled :=
  settled.mapRequests fun _ hr => ⟨hr.request, hr.responses⟩

end Collection

/-- A collection that is read from a value or converted from a document, with any passes over it. -/
inductive Collection.Obtained : Collection → Prop where
  | read {j : Json} {c : Collection} : Collection.ofJson? j = some c → Obtained c
  | converted {document : Json} {options : Conversion.Options} {c : Collection} :
      Conversion.convert document options = .ok c → Obtained c
  | based {c : Collection} (url : String) : Obtained c → Obtained (c.setBaseUrl url)
  | filled {c : Collection} (e : Enhancer) : Obtained c → Obtained (e.addVariables c)
  | headed {c : Collection} : Obtained c → Obtained c.completeHeaders
  | referred {c : Collection} (e : Enhancer) : Obtained c → Obtained (e.referVariables c).1
  | renamed {c : Collection} : Obtained c → Obtained c.improveNames
  | sorted {c : Collection} : Obtained c → Obtained c.sort
  | answered {c : Collection} (e : Enhancer) : Obtained c → Obtained (e.completeResponses c).1
  | enhanced {c : Collection} (e : Enhancer) : Obtained c → Obtained (e.enhance c).1

private theorem Enhancer.settled_enhance (e : Enhancer) {c : Collection} (settled : c.Settled) :
    (e.enhance c).1.Settled := by
  have referred := settled_referVariables e
    (Collection.settled_completeHeaders (settled_addVariables e settled))
  exact settled_completeResponses _ (Collection.settled_improveNames referred).sort

private theorem Collection.Obtained.settled {c : Collection} (h : c.Obtained) : c.Settled := by
  induction h with
  | read h => exact settled_of_ofJson? h
  | converted h => exact Conversion.settled_of_convert h
  | based url _ ih => exact settled_setBaseUrl ih url
  | filled e _ ih => exact e.settled_addVariables ih
  | headed _ ih => exact settled_completeHeaders ih
  | referred e _ ih => exact e.settled_referVariables ih
  | renamed _ ih => exact settled_improveNames ih
  | sorted _ ih => exact ih.sort
  | answered e _ ih => exact e.settled_completeResponses ih
  | enhanced e _ ih => exact e.settled_enhance ih

/-- A collection that is obtained is read as it is written: the same tree of folders and requests,
with nothing where a field is absent. -/
theorem Collection.ofJson?_toJson_of_obtained {c : Collection} (h : c.Obtained) :
    Collection.ofJson? c.toJson = some c := ofJson?_toJson h.settled

/-- A folder in a folder, and a request with a body and with an answer to another request. Fields
that may be absent are. -/
def nestedFolders : Json :=
  .object [
    ("info", .object [("name", .string "Demo"), ("schema", .string Collection.formatAddress)]),
    ("item", .array [
      .object [("name", .string "Users"), ("item", .array [
        .object [("name", .string "Roles"), ("item", .array [])],
        .object [("name", .string "create user"),
          ("request", .object [("method", .string "POST"), ("url", .object []),
            ("body", .object [("mode", .string "raw"), ("options", .object [])])]),
          ("response", .array [.object [("name", .string "created"), ("status", .string "Created"),
            ("code", 201), ("originalRequest", .object [("method", .string "POST"),
              ("url", .object [])])]])]])],
      .object [("name", .string "ping"),
        ("request", .object [("method", .string "GET"), ("url", .object [])])]])]

theorem Collection.ofJson?_toJson_nestedFolders :
    let e : Enhancer := { stream := Stream.ofSeed 42 }
    ∃ c, Collection.ofJson? nestedFolders = some c ∧
      c.requests.map (·.name) = ["create user", "ping"] ∧
      Collection.ofJson? c.toJson = some c ∧
      Collection.ofJson? (e.enhance c).1.toJson = some (e.enhance c).1 := by
  intro e
  have found : (Collection.ofJson? nestedFolders).isSome = true := by decide
  obtain ⟨c, read⟩ := Option.isSome_iff_exists.1 found
  have names : (Collection.ofJson? nestedFolders).map (fun c => c.requests.map (·.name)) =
      some ["create user", "ping"] := by decide
  rw [read] at names
  exact ⟨c, read, Option.some.inj names, ofJson?_toJson_of_obtained (.read read),
    ofJson?_toJson_of_obtained (.enhanced e (.read read))⟩

end ApiCollection
