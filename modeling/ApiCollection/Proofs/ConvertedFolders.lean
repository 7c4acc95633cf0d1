import ApiCollection.Proofs.ConvertedApi

/-!
# Folders of a converted document

Conversion parts the operations of a document by their folders. There is one folder for each name,
where the name is first met, with the requests of its operations in the order of the document; the
requests without a folder stand behind the folders. The number of requests is the number of
operations, and only a document without operations is refused.
-/

namespace ApiCollection.Conversion

section Grouping

variable {α : Type} (folder : α → Option String) (request : α → RequestItem)

/-- The names of folders, in the order in which they are first met. -/
def folderNames (os : List α) : List String := (os.filterMap folder).eraseDups

/-- The requests with a folder, or those without one. -/
def requestsIn (os : List α) (place : Option String) : List RequestItem :=
  (os.filter fun o => folder o == place).map request

def Grouped.ofAll (os : List α) : Grouped where
  folders := (folderNames folder os).map fun name => (name, requestsIn folder request os (some name))
  loose := requestsIn folder request os none

variable {folder request} {os : List α} {o : α}

private theorem mem_folderNames_iff {name : String} :
    name ∈ folderNames folder os ↔ ∃ o ∈ os, folder o = some name := by
  simp [folderNames]

theorem nodup_folderNames : (folderNames folder os).Nodup := Table.nodup_eraseDups _

private theorem requestsIn_concat (place : Option String) :
    requestsIn folder request (os ++ [o]) place =
      requestsIn folder request os place ++ if folder o = place then [request o] else [] := by
  by_cases here : folder o = place <;> simp [requestsIn, here]

/-- A folder that is not met yet has no requests. -/
theorem requestsIn_eq_nil {name : String} (h : name ∉ folderNames folder os) :
    requestsIn folder request os (some name) = [] := by
  have none' : ∀ o ∈ os, folder o ≠ some name := by
    intro o member here
    exact h (mem_folderNames_iff.2 ⟨o, member, here⟩)
  simpa [requestsIn] using none'

private theorem folderNames_concat_none (h : folder o = none) :
    folderNames folder (os ++ [o]) = folderNames folder os := by
  simp [folderNames, h]

private theorem folderNames_concat_some {name : String} (h : folder o = some name) :
    folderNames folder (os ++ [o]) = if name ∈ folderNames folder os then folderNames folder os
      else folderNames folder os ++ [name] := by
  simp [folderNames, h, Table.eraseDups_concat, List.mem_eraseDups]

/-- One more operation. -/
theorem Grouped.ofAll_concat : (ofAll folder request os).add (folder o) (request o) =
    ofAll folder request (os ++ [o]) := by
  cases here : folder o with
  | none => simp [add, ofAll, folderNames_concat_none here, requestsIn_concat, here]
  | some name =>
    have gathered : (((ofAll folder request os).folders.get? name).getD []) =
        requestsIn folder request os (some name) := by
      rw [ofAll, Table.get?_tabulated]
      split
      · rfl
      · rename_i new
        exact (requestsIn_eq_nil new).symm
    have inserted : (ofAll folder request os).folders.insert name
        (requestsIn folder request os (some name) ++ [request o]) =
          (ofAll folder request (os ++ [o])).folders := by
      refine (Table.insert_tabulated nodup_folderNames _ _ _).trans ?_
      rw [← folderNames_concat_some here, ofAll]
      apply List.map_congr_left
      intro other _
      by_cases same : other = name
      · simp [same, requestsIn_concat, here]
      · simp [same, requestsIn_concat, here, Ne.symm same]
    have loose : (ofAll folder request (os ++ [o])).loose = (ofAll folder request os).loose := by
      simp [ofAll, requestsIn_concat, here]
    rw [add, gathered, inserted, ← loose]

/-- Operations that are added one after the other are parted by their folders. -/
theorem foldl_add_eq (folder : α → Option String) (request : α → RequestItem) (os : List α) :
    os.foldl (fun g o => g.add (folder o) (request o)) {} = Grouped.ofAll folder request os := by
  induction os using List.reverseRecOn with
  | nil => rfl
  | append_singleton os o ih => rw [List.foldl_concat, ih, Grouped.ofAll_concat]

end Grouping

/-- The paths and methods for which a document has operations, in its order. -/
def places (document : Json) : List (String × String) :=
  (document.getMembers "paths").flatMap fun (path, item) =>
    ((item.members?.getD []).keys.filter methodKeys.contains).map fun method => (path, method)

/-- Whether no path of a document has two members, and no method of a path. -/
structure UniqueKeys (document : Json) : Prop where
  paths : (document.getMembers "paths").keys.Nodup
  methods : ∀ e ∈ document.getMembers "paths", (e.2.members?.getD []).keys.Nodup

theorem map_operations (document : Json) :
    (operations document).map (fun o => (o.path, o.method)) = places document := by
  simp only [operations, places, pathOperations, List.map_flatMap, List.map_map, Table.keys,
    List.filter_map, Function.comp_def]

private theorem length_places (document : Json) :
    (places document).length = operationCount document := by
  simp [places, operationCount, List.length_flatMap, Table.keys, List.filter_map, Function.comp_def]

private theorem length_operations (document : Json) :
    (operations document).length = operationCount document := by
  rw [← length_places, ← map_operations, List.length_map]

private theorem UniqueKeys.nodup_places {document : Json} (h : UniqueKeys document) :
    (places document).Nodup := by
  rw [places, List.nodup_flatMap]
  constructor
  · rintro ⟨path, item⟩ member
    apply ((h.methods _ member).filter _).map
    intro a b same
    exact (Prod.mk.inj same).2
  · refine (List.pairwise_map.1 h.paths).imp ?_
    rintro ⟨path, item⟩ ⟨other, item'⟩ apart place first second
    obtain ⟨a, -, rfl⟩ := List.mem_map.1 first
    obtain ⟨b, -, same⟩ := List.mem_map.1 second
    exact apart (Prod.mk.inj same).1.symm

/-- How a collection has the operations of a document. -/
structure Partitions (document : Json) (options : Options) (c : Collection) : Prop where
  count : c.requestCount = operationCount document
  requests : c.requests.Perm ((operations document).map (requestItem document options))
  visited : (operations document).map (fun o => (o.path, o.method)) = places document
  once : UniqueKeys document → (places document).Nodup
  items : c.items =
    (folderNames (folder? options.grouping) (operations document)).map (fun name =>
      .folder name none ((requestsIn (folder? options.grouping) (requestItem document options)
        (operations document) (some name)).map .request)) ++
    (requestsIn (folder? options.grouping) (requestItem document options)
      (operations document) none).map .request
  distinct : (folderNames (folder? options.grouping) (operations document)).Nodup

theorem method_requestItem (document : Json) (options : Options) (o : Operation) :
    (requestItem document options o).request.method = Text.uppercase o.method := rfl

theorem path_requestItem (document : Json) (options : Options) (o : Operation) :
    (requestItem document options o).request.url.path = addressSegments o.path := rfl

/-- The requests go to the paths of the operations, by their methods in capital letters: each path
and method of the document has its own request. -/
theorem Partitions.routes {document : Json} {options : Options} {c : Collection}
    (h : Partitions document options c) :
    (c.requests.map fun r => (r.request.method, r.request.url.path)).Perm
      ((places document).map fun (path, method) =>
        (Text.uppercase method, addressSegments path)) := by
  have routed := h.requests.map fun r => (r.request.method, r.request.url.path)
  simp only [List.map_map, Function.comp_def, method_requestItem, path_requestItem] at routed
  rw [← h.visited, List.map_map]
  exact routed

/-- A collection with the grouped requests of a document parts its operations. -/
theorem partitions_of_items {document : Json} {options : Options} {c : Collection}
    (items : c.items = (Grouped.ofAll (folder? options.grouping) (requestItem document options)
      (operations document)).items) : Partitions document options c := by
  have perm : c.requests.Perm ((operations document).map (requestItem document options)) := by
    have folded := foldl_add_requests_perm (folder? options.grouping) (requestItem document options)
      (operations document) {}
    rw [foldl_add_eq, ← requestsOf_items, ← items] at folded
    exact folded
  refine ⟨?_, perm, map_operations document, UniqueKeys.nodup_places, ?_, nodup_folderNames⟩
  · rw [c.requestCount_eq, perm.length_eq, List.length_map, length_operations]
  · simp [items, Grouped.items, Grouped.ofAll, Function.comp_def]

/-- A document is converted exactly when it has operations, and then the collection has one request
for each of them, parted by folders in the order of the document. -/
theorem convert_partitions (document : Json) (options : Options) :
    ((∃ c, convert document options = .ok c) ↔ 0 < operationCount document) ∧
      ∀ c, convert document options = .ok c → Partitions document options c := by
  unfold convert
  rw [foldl_add_eq]
  split
  · rename_i missing
    have empty : operationCount document = 0 := by
      rw [Option.isNone_iff_eq_none] at missing
      simp [operationCount, Json.getMembers, missing]
    simp [empty]
  · extract_lets grouped empty info collection
    have partitions : Partitions document options collection := partitions_of_items rfl
    have none' : collection.requests.isEmpty = true ↔ operationCount document = 0 := by
      rw [← partitions.count, collection.requestCount_eq]
      simp
    split
    · rename_i nothing
      simp [none'.1 nothing]
    · rename_i something
      have positive : 0 < operationCount document := by
        rw [none'] at something
        omega
      refine ⟨⟨fun _ => positive, fun _ => ⟨collection, rfl⟩⟩, ?_⟩
      intro c same
      cases same
      exact partitions

/-- A document with a path that is no object, an operation that is none, and two folders of which
one is met again. -/
def petsDocument : Json :=
  let tagged (tag : String) : Json := .object [("tags", .array [.string tag])]
  .object [("paths", .object [
    ("/pets", .object [("get", tagged "pets"), ("parameters", .array []), ("post", .null)]),
    ("/broken", .string "get"),
    ("/pets/{id}", .object [("delete", tagged "admin"), ("put", tagged "pets")])])]

theorem convert_partitions_pets : 0 < operationCount petsDocument ∧
    ∃ c, convert petsDocument {} = .ok c ∧ Partitions petsDocument {} c := by
  have positive : 0 < operationCount petsDocument := by decide
  obtain ⟨c, converted⟩ := (convert_partitions petsDocument {}).1.2 positive
  exact ⟨positive, c, converted, (convert_partitions petsDocument {}).2 c converted⟩

example : folderNames (folder? .tags) (operations petsDocument) = ["pets", "admin"] := by
  decide +kernel

end ApiCollection.Conversion
