import ApiCollection.Proofs.ConvertedFolders
import ApiCollection.Proofs.TransparentReferences

/-!
# Collections of documents with references

A document with a reference in the place of a used value has the collection of the document with
the value, exactly when the types that are shown for parameters are the same. They are, unless the
value is the schema of a parameter that names its type.
-/

namespace ApiCollection.Conversion

section Grouping

variable {α : Type} {folder folder' : α → Option String} {request request' : α → RequestItem}
  {os os' : List α}

/-- Operations in the same folders have the same requests in each folder only if they have the same
requests. -/
theorem requestsIn_eq_iff (h : List.Forall₂ (fun o o' => folder o = folder' o') os os') :
    (∀ place, requestsIn folder request os place = requestsIn folder' request' os' place) ↔
      os.map request = os'.map request' := by
  induction h with
  | nil => simp [requestsIn]
  | @cons o o' os os' first _ ih =>
    have step (place : Option String) :
        requestsIn folder request (o :: os) place = requestsIn folder' request' (o' :: os') place ↔
          (folder o = place → request o = request' o') ∧
            requestsIn folder request os place = requestsIn folder' request' os' place := by
      by_cases here : folder o = place <;> simp [requestsIn, ← first, here]
    simp [step, forall_and, ih]

private theorem filterMap_eq_of_rel (h : List.Forall₂ (fun o o' => folder o = folder' o') os os') :
    os.filterMap folder = os'.filterMap folder' := by
  have names := congrArg (List.filterMap id) (map_eq_of_rel h fun _ _ => id)
  rwa [List.filterMap_map, List.filterMap_map] at names

private theorem Grouped.items_inj {g g' : Grouped} : g.items = g'.items ↔ g = g' := by
  have requests {rs rs' : List RequestItem} (h : rs.map Item.request = rs'.map Item.request) :
      rs = rs' := List.map_injective_iff.2 (fun _ _ => Item.request.inj) h
  constructor
  · obtain ⟨folders, loose⟩ := g
    obtain ⟨folders', loose'⟩ := g'
    intro same
    simp only [items] at same
    suffices folders = folders' ∧ loose = loose' by rw [this.1, this.2]
    induction folders generalizing folders' with
    | nil =>
      cases folders' with
      | nil => exact ⟨rfl, requests same⟩
      | cons _ _ => cases loose <;> simp at same
    | cons f folders ih =>
      cases folders' with
      | nil => cases loose' <;> simp at same
      | cons f' folders' =>
        simp only [List.map_cons, List.cons_append, List.cons.injEq, Item.folder.injEq,
          true_and] at same
        obtain ⟨rfl, rfl⟩ := ih folders' same.2
        exact ⟨by rw [Prod.ext same.1.1 (requests same.1.2)], rfl⟩
  · rintro rfl
    rfl

/-- Grouped requests tell the requests of all operations. -/
theorem Grouped.ofAll_eq_iff (h : List.Forall₂ (fun o o' => folder o = folder' o') os os') :
    ofAll folder request os = ofAll folder' request' os' ↔ os.map request = os'.map request' := by
  have names : folderNames folder os = folderNames folder' os' := by
    rw [folderNames, folderNames, filterMap_eq_of_rel h]
  rw [← requestsIn_eq_iff h, ofAll, ofAll, Grouped.mk.injEq, names]
  constructor
  · rintro ⟨folders, loose⟩ (_ | name)
    · exact loose
    · by_cases met : name ∈ folderNames folder' os'
      · exact (Prod.mk.inj (List.map_inj_left.1 folders name met)).2
      · rw [requestsIn_eq_nil met, requestsIn_eq_nil (names ▸ met)]
  · exact fun same => ⟨List.map_congr_left fun name _ => by rw [same], same none⟩

end Grouping

def headed (title description address : Option String) (items : List Item) : Collection :=
  let empty := Collection.named (title.getD "API")
  { info := { empty.info with description := description }
    items := items
    sharedVariables := address.toList.map (.text baseUrlKey) }

private theorem convert_eq_headed (document : Json) (options : Options) : convert document options =
    if ((document.get? "paths").bind Json.members?).isNone then
      .error (.conversion "document has no paths object")
    else if operations document = [] then
      .error (.conversion "no requests could be generated from the document")
    else .ok (headed (infoText? document "title") (infoText? document "description")
      (baseAddress? document) (Grouped.ofAll (folder? options.grouping)
        (requestItem document options) (operations document)).items) := by
  unfold convert
  rw [foldl_add_eq]
  split
  · rfl
  · extract_lets grouped empty info collection
    have perm := (partitions_of_items (c := collection) rfl).requests
    have nothing : collection.requests.isEmpty = true ↔ operations document = [] := by
      rw [List.isEmpty_iff]
      constructor
      · intro none
        rw [none, List.nil_perm, List.map_eq_nil_iff] at perm
        exact perm
      · intro none
        rw [none, List.map_nil, List.perm_nil] at perm
        exact perm
    rw [if_congr nothing rfl rfl]
    rfl

namespace Referral

variable (x : Referral)

private theorem infoText?_eq (key : String) : infoText? x.plain key = infoText? x.referred key := by
  have name : Json.itemIndex? "info" = none := by decide
  rw [infoText?, infoText?, Json.follow?_pair name, Json.follow?_pair name, x.get?_document (by decide)]

private theorem baseAddress?_eq : baseAddress? x.plain = baseAddress? x.referred := by
  have servers : Json.itemIndex? "servers" = none := by decide
  have schemes : Json.itemIndex? "schemes" = none := by decide
  have texts {key : String} (other : key ≠ "paths") :
      x.plain.getString? key = x.referred.getString? key := by
    rw [Json.getString?, Json.getString?, x.get?_document other]
  unfold baseAddress?
  rw [Json.follow?_pair servers, Json.follow?_pair servers, Json.follow?_pair schemes, Json.follow?_pair schemes,
    x.get?_document (by decide), x.get?_document (by decide), texts (by decide), texts (by decide)]

private theorem convert_eq_iff_requests (options : Options) :
    convert x.plain options = convert x.referred options ↔
      (operations x.plain).map (requestItem x.plain options) =
        (operations x.referred).map (requestItem x.referred options) := by
  have counterparts := rel_operations x
  have folders := counterparts.imp fun _ _ h => folder?_eq h options.grouping
  have missing : ((x.plain.get? "paths").bind Json.members?).isNone =
      ((x.referred.get? "paths").bind Json.members?).isNone := by
    rw [← Option.not_isSome, ← Option.not_isSome, isSome_eq_of_rel x.rel_paths]
  have nothing : operations x.plain = [] ↔ operations x.referred = [] := by
    rw [← List.length_eq_zero_iff, ← List.length_eq_zero_iff, counterparts.length_eq]
  rw [convert_eq_headed, convert_eq_headed, ← missing]
  by_cases empty : operations x.plain = []
  · simp [empty, nothing.1 empty]
  · have paths : ¬((x.plain.get? "paths").bind Json.members?).isNone = true := by
      intro none
      rw [Option.isNone_iff_eq_none] at none
      exact empty (by simp [operations, Json.getMembers, none])
    rw [if_neg paths, if_neg paths, if_neg empty, if_neg (fun none => empty (nothing.2 none)),
      x.infoText?_eq, x.infoText?_eq, x.baseAddress?_eq, Except.ok.injEq,
      ← Grouped.ofAll_eq_iff folders, ← Grouped.items_inj, headed, headed]
    simp

private theorem map_requestItem_eq_iff (options : Options) :
    (operations x.plain).map (requestItem x.plain options) =
        (operations x.referred).map (requestItem x.referred options) ↔
      (options.parameters = .schema →
        (operations x.plain).map (parameterTexts x.plain .schema) =
          (operations x.referred).map (parameterTexts x.referred .schema)) := by
  have counterparts := rel_operations x
  constructor
  · intro requests schema
    exact map_eq_of_map_eq counterparts requests fun _ _ h same =>
      (requestItem_eq_iff h).1 same schema
  · intro texts
    by_cases schema : options.parameters = .schema
    · exact map_eq_of_map_eq counterparts (texts schema) fun _ _ h same =>
        (requestItem_eq_iff h).2 fun _ => same
    · exact map_eq_of_rel counterparts fun _ _ h =>
        (requestItem_eq_iff h).2 fun same => absurd same schema

/-- Conversion looks behind references everywhere but for the types of parameters: a document with
a reference has the same collection exactly when these types are the same, as they are unless a
parameter with a named type has the reference as its schema. -/
theorem convert_eq_iff (options : Options) :
    (convert x.plain options = convert x.referred options ↔
      (options.parameters = .schema →
        (operations x.plain).map (parameterTexts x.plain .schema) =
          (operations x.referred).map (parameterTexts x.referred .schema))) ∧
    ((options.parameters = .schema →
        x.isParameterSchema = false ∨ placeholder x.value = "<any>") →
      convert x.plain options = convert x.referred options) := by
  rw [x.convert_eq_iff_requests, x.map_requestItem_eq_iff]
  refine ⟨Iff.rfl, fun other schema => ?_⟩
  exact map_eq_of_rel (rel_operations x) fun _ _ h => parameterTexts_schema_eq h (other schema)

/-- A document with the schema of users in the only response of an operation, and the same with a
reference there. The schema and the parameter of the operation have references of their own. -/
def users : Referral :=
  let user : Json := .object [("type", .string "object"), ("properties", .object [
    ("id", referenceTo "/components/schemas/Id"),
    ("boss", referenceTo "/components/schemas/User")])]
  let document (schema : Json) : Json := .object [
    ("paths", .object [("/users/{id}", .object [("get", .object [
      ("parameters", .array [.object [("name", .string "id"), ("in", .string "path"),
        ("schema", referenceTo "/components/schemas/Id")]]),
      ("responses", .object [("200", .object [("content", .object [
        ("application/json", .object [("schema", schema)])])])])])])]),
    ("components", .object [("schemas", .object [
      ("Id", .object [("type", .string "integer")]), ("User", user)])])]
  { plain := document user
    referred := document (referenceTo "/components/schemas/User")
    use := ["paths", "/users/{id}", "get", "responses", "200", "content", "application/json",
      "schema"]
    value := user
    pointer := "/components/schemas/User"
    used := by decide
    replaced := .member [] _ List.not_mem_nil <| .member [] _ List.not_mem_nil <|
      .member [] _ List.not_mem_nil <| .member [_] [] (by decide) <|
      .member [] [] List.not_mem_nil <| .member [] [] List.not_mem_nil <|
      .member [] [] List.not_mem_nil <| .member [] [] List.not_mem_nil .here
    direct := rfl
    stored := by decide +kernel
    spared := by decide }

theorem convert_eq_of_response : users.isParameterSchema = false ∧
    convert users.plain { parameters := .schema, examples := .schema } =
      convert users.referred { parameters := .schema, examples := .schema } := by
  have other : users.isParameterSchema = false := by decide
  exact ⟨other, (users.convert_eq_iff _).2 fun _ => .inl other⟩

/-- A document whose schema for identifiers is used as the schema of a parameter in a path, as it is
or by reference. -/
def identifiers : Referral :=
  let id : Json := .object [("type", .string "integer"), ("format", .string "int64")]
  let document (schema : Json) : Json := .object [
    ("paths", .object [("/users/{id}", .object [("get", .object [
      ("parameters", .array [.object [
        ("name", .string "id"), ("in", .string "path"), ("schema", schema)]])])])]),
    ("components", .object [("schemas", .object [("Id", id)])])]
  { plain := document id
    referred := document (referenceTo "/components/schemas/Id")
    use := ["paths", "/users/{id}", "get", "parameters", "0", "schema"]
    value := id
    pointer := "/components/schemas/Id"
    used := by decide
    replaced := .member [] _ List.not_mem_nil <| .member [] _ List.not_mem_nil <|
      .member [] _ List.not_mem_nil <| .member [] _ List.not_mem_nil <|
      .item [] [] rfl <| .member [_, _] [] (by decide) .here
    direct := rfl
    stored := by decide +kernel
    spared := by decide }

/-- With types as values, the reference hides the type of the parameter. -/
theorem convert_ne_of_identifiers : convert identifiers.plain { parameters := .schema } ≠
    convert identifiers.referred { parameters := .schema } := by
  intro same
  have values := congrArg (fun converted => converted.toOption.map fun c =>
    c.requests.map fun r => r.request.url.pathVariables.map Variable.value) same
  exact absurd values (by decide +kernel)

end Referral

end ApiCollection.Conversion
