import ApiCollection.Proofs.DocumentOperations
import ApiCollection.Proofs.TextPieces

/-!
# Interfaces as collections

The document of an interface becomes a collection with one request for the last endpoint of each
path and method, and no other requests. A request has the method of its endpoint, the segments of
its path, its parameters in order, its body and its statuses.
-/

namespace ApiCollection.Conversion

open OpenApi Endpoint

/-- A segment with `:x` for each `{x}`. An opening brace that is not closed stays, with what follows
it. -/
inductive ColonForm : List Char → List Char → Prop where
  | nil : ColonForm [] []
  | parameter {name rest out : List Char} : '\x7d' ∉ name → ColonForm rest out →
      ColonForm ('\x7b' :: (name ++ '\x7d' :: rest)) (':' :: (name ++ out))
  | unclosed {rest : List Char} : '\x7d' ∉ rest → ColonForm ('\x7b' :: rest) ('\x7b' :: rest)
  | char {c : Char} {rest out : List Char} : c ≠ '\x7b' → ColonForm rest out →
      ColonForm (c :: rest) (c :: out)

private theorem colonForm_colonSegment (cs : List Char) : ColonForm cs (colonSegment cs) := by
  induction cs using colonSegment.induct with
  | case1 =>
    rw [colonSegment]
    exact .nil
  | case2 c cs brace name rest cut ih =>
    have opened : c = '\x7b' := beq_iff_eq.1 brace
    have parts : colonSegment (c :: cs) = ':' :: (name ++ colonSegment rest) := by
      rw [colonSegment, if_pos brace]
      split
      · rename_i found
        obtain ⟨rfl, rfl⟩ := Prod.mk.inj (Option.some.inj (cut.symm.trans found))
        rfl
      · rename_i found
        cases cut.symm.trans found
    rw [parts, Text.cutAtChar?_eq_some cut, opened]
    exact .parameter (Text.cutAtChar?_front cut) ih
  | case3 c cs brace cut =>
    have opened : c = '\x7b' := beq_iff_eq.1 brace
    have same : colonSegment (c :: cs) = c :: cs := by
      rw [colonSegment, if_pos brace]
      split
      · rename_i found
        cases cut.symm.trans found
      · rfl
    rw [same, opened]
    exact .unclosed (Text.cutAtChar?_none cut)
  | case4 c cs other ih =>
    rw [colonSegment, if_neg other]
    exact .char (by simpa using other) ih

/-- The segments of a path between slashes, without the empty ones. -/
def slashSegments (path : String) : List (List Char) :=
  (Text.splitAtChar '/' path.toList).filter fun s => !s.isEmpty

/-- What a request shows of an endpoint. -/
structure Shows (e : Endpoint Json) (r : RequestItem) : Prop where
  method : r.request.method = e.method.name
  path : List.Forall₂ ColonForm (slashSegments e.path) (r.request.url.path.map String.toList)
  pathVariables : r.request.url.pathVariables.map (·.key) = e.parameters.path.map (·.name)
  query : r.request.url.query.map (·.key) = e.parameters.query.map (·.name)
  headers : r.request.headers.map (·.key) =
    e.parameters.header.map (·.name) ++ if e.body.isSome then ["Content-Type"] else []
  body : r.request.body.isSome = e.body.isSome
  distinct : (r.responses.map (·.code)).Nodup
  codes : ∀ code, code ∈ r.responses.map (·.code) ↔ code ∈ shownStatuses e

private theorem uppercase_key (method : HttpMethod) : Text.uppercase method.key = method.name := by
  cases method <;> decide +kernel

theorem colonForm_addressSegments (path : String) :
    List.Forall₂ ColonForm (slashSegments path) ((addressSegments path).map String.toList) := by
  have segments : (addressSegments path).map String.toList =
      (slashSegments path).map colonSegment := by
    simp [addressSegments, pathSegments, slashSegments, Function.comp_def]
  rw [segments, List.forall₂_map_right_iff, List.forall₂_same]
  exact fun s _ => colonForm_colonSegment s

/-- The request of an operation shows the endpoint of the operation. -/
theorem shows_requestItem (document : Json) (options : Options) {e : Endpoint Json}
    (distinct : e.parameters.DistinctNames) :
    Shows e (requestItem document options (operationOf e)) := by
  have parameters : mergeParameters document (operationOf e).shared
      ((operationOf e).content.get? "parameters") = written e.parameters := by
    have content : (operationOf e).content = operationJson e := rfl
    rw [content, get?_operationJson_parameters]
    exact mergeParameters_written document distinct
  have body := requestBody?_isSome document options.examples e
  obtain ⟨nodup, codes⟩ := codes_operationJson document options e
    (requestOf document options (operationOf e) (written e.parameters))
  rw [requestItem, parameters]
  refine ⟨uppercase_key e.method, colonForm_addressSegments e.path, ?_, ?_, ?_, ?_, nodup, codes⟩
  · simp [requestOf, Url.rebuild, ← located_path, Function.comp_def]
  · simp [requestOf, Url.rebuild, ← located_query, Function.comp_def]
  · simp only [requestOf, operationOf, List.map_append, List.map_map, ← located_header]
    congr 1
    rw [← body]
    cases requestBody? document options.examples (written e.parameters) (operationJson e) with
    | none => rfl
    | some found => rfl
  · simp [requestOf, operationOf, body]

def Grouped.requests (g : Grouped) : List RequestItem := g.folders.flatMap Prod.snd ++ g.loose

theorem requestsOf_items (g : Grouped) : Item.requestsOf g.items = g.requests := by
  have append (items others : List Item) :
      Item.requestsOf (items ++ others) = Item.requestsOf items ++ Item.requestsOf others := by
    induction items with
    | nil => rfl
    | cons i items ih => simp [Item.requestsOf, ih]
  have loose (rs : List RequestItem) : Item.requestsOf (rs.map .request) = rs := by
    induction rs with
    | nil => rfl
    | cons r rs ih => simp [Item.requestsOf, Item.requests, ih]
  have folders (t : Table (List RequestItem)) :
      Item.requestsOf (t.map fun f => .folder f.1 none (f.2.map .request)) = t.flatMap Prod.snd := by
    induction t with
    | nil => rfl
    | cons f t ih =>
      rw [List.map_cons, Item.requestsOf, Item.requests, loose, ih, List.flatMap_cons]
  have items : g.items = (g.folders.map fun f => .folder f.1 none (f.2.map .request)) ++
      g.loose.map .request := rfl
  rw [items, append, folders, loose, Grouped.requests]

private theorem flatMap_insert_perm (t : Table (List RequestItem)) (name : String)
    (r : RequestItem) :
    ((t.insert name (((t.get? name).getD []) ++ [r])).flatMap Prod.snd).Perm
      (t.flatMap Prod.snd ++ [r]) := by
  induction t with
  | nil => exact .refl _
  | cons f t ih =>
    obtain ⟨k, rs⟩ := f
    rw [Table.insert, Table.get?_cons]
    by_cases same : k = name
    · subst same
      rw [if_pos (beq_self_eq_true k), if_pos rfl]
      simp only [List.flatMap_cons, Option.getD_some, List.append_assoc]
      exact (List.perm_append_comm).append_left rs
    · rw [if_neg (by simpa using same), if_neg (Ne.symm same)]
      simp only [List.flatMap_cons, List.append_assoc]
      exact ih.append_left rs

private theorem Grouped.add_requests_perm (g : Grouped) (folder : Option String) (r : RequestItem) :
    (g.add folder r).requests.Perm (g.requests ++ [r]) := by
  cases folder with
  | none => simp [Grouped.add, Grouped.requests]
  | some name =>
    have inserted := (flatMap_insert_perm g.folders name r).append_right g.loose
    refine inserted.trans ?_
    simp only [Grouped.requests, List.append_assoc]
    exact (List.perm_append_comm).append_left _

/-- Folders hold every request once. -/
theorem foldl_add_requests_perm {α : Type} (folder : α → Option String) (request : α → RequestItem)
    (os : List α) (g : Grouped) :
    (os.foldl (fun g o => g.add (folder o) (request o)) g).requests.Perm
      (g.requests ++ os.map request) := by
  induction os generalizing g with
  | nil => simp
  | cons o os ih =>
    refine (ih _).trans ?_
    rw [List.map_cons, ← List.singleton_append, ← List.append_assoc]
    exact (g.add_requests_perm (folder o) (request o)).append_right _

/-- A document with an operation is converted to the requests of its operations. -/
theorem convert_requests {document : Json} (options : Options) {paths : Json.Members}
    (found : document.get? "paths" = some (.object paths)) (operation : operations document ≠ []) :
    ∃ c, convert document options = .ok c ∧
      c.requests.Perm ((operations document).map (requestItem document options)) := by
  have members : ¬((document.get? "paths").bind Json.members?).isNone = true := by
    rw [found]
    exact Bool.false_ne_true
  unfold convert
  rw [if_neg members]
  extract_lets grouped empty info collection
  have perm : collection.requests.Perm
      ((operations document).map (requestItem document options)) := by
    have folded := foldl_add_requests_perm (folder? options.grouping) (requestItem document options)
      (operations document) {}
    rw [← requestsOf_items] at folded
    exact folded
  have request : ¬collection.requests.isEmpty = true := by
    intro empty
    rw [List.isEmpty_iff] at empty
    rw [empty, List.nil_perm, List.map_eq_nil_iff] at perm
    exact operation perm
  rw [if_neg request]
  exact ⟨collection, rfl, perm⟩

/-- Nothing is lost between an interface and its collection: there is one request for the last
endpoint of each path and method, which shows the endpoint, and no other request. -/
theorem convert_ofApi (api : Api) (options : Options) (endpoint : api.endpoints ≠ [])
    (distinct : ∀ e ∈ api.endpoints, e.parameters.DistinctNames) :
    ∃ c requests, convert (Document.ofApi api).toJson options = .ok c ∧
      c.requests.Perm requests ∧ List.Forall₂ Shows (lasts api.endpoints) requests := by
  have listed := operations_toJson (Document.placed_ofApi api)
  have perm := Document.endpoints_ofApi_perm api
  have operation : operations (Document.ofApi api).toJson ≠ [] := by
    rw [listed]
    intro none'
    rw [List.map_eq_nil_iff] at none'
    rw [none', List.nil_perm] at perm
    obtain ⟨e, he⟩ := List.exists_mem_of_ne_nil _ endpoint
    have placed := place_mem_lasts_iff.2 (List.mem_map_of_mem (f := place) he)
    rw [perm] at placed
    cases placed
  obtain ⟨c, converted, requests⟩ := convert_requests options (get?_toJson_paths _) operation
  refine ⟨c, (lasts api.endpoints).map fun e =>
    requestItem (Document.ofApi api).toJson options (operationOf e), converted, ?_, ?_⟩
  · rw [listed, List.map_map] at requests
    exact requests.trans (perm.map _)
  · rw [List.forall₂_map_right_iff, List.forall₂_same]
    intro e he
    exact shows_requestItem _ options (distinct e (lasts_subset he))

/-- An interface whose first endpoint is replaced by a later one. -/
def usersApi : Api :=
  let id : Parameter Json := ⟨"id", "Long", true, .typed "integer" (some "int64"), some 7, none⟩
  let verbose : Parameter Json := ⟨"verbose", "boolean", false, .typed "boolean" none, none, none⟩
  { endpoints := [
      .plain .get "/users/{id}" "Find User",
      { Endpoint.plain .get "/users/{id}" "Get User" with
        parameters := { path := [id], query := [verbose] }
        responses := [{ status := 200, description := "OK" }, { status := 404, description := "" }] },
      { Endpoint.plain .post "/users" "Create User" with
        body := some ⟨"User", true, "application/json", .ref "User", none⟩ }] }

theorem convert_usersApi : usersApi.endpoints ≠ [] ∧
    (∀ e ∈ usersApi.endpoints, e.parameters.DistinctNames) ∧
    ∃ c requests, convert (Document.ofApi usersApi).toJson {} = .ok c ∧
      c.requests.Perm requests ∧ List.Forall₂ Shows (usersApi.endpoints.drop 1) requests := by
  have endpoint : usersApi.endpoints ≠ [] := List.cons_ne_nil _ _
  have distinct : ∀ e ∈ usersApi.endpoints, e.parameters.DistinctNames := by
    simp only [usersApi, List.forall_mem_cons]
    exact ⟨⟨by decide, by decide, by decide⟩, ⟨by decide, by decide, by decide⟩,
      ⟨by decide, by decide, by decide⟩, List.forall_mem_nil _⟩
  have last : lasts usersApi.endpoints = usersApi.endpoints.drop 1 := rfl
  refine ⟨endpoint, distinct, ?_⟩
  rw [← last]
  exact convert_ofApi usersApi {} endpoint distinct

end ApiCollection.Conversion
