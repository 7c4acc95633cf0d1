import ApiCollection.Collection.Json
import ApiCollection.Proofs.CollectionTree

/-!
# Collections read back

A record is read as it is written, with nothing where a field is absent. A collection that is written
and read again is the collection that it was, with each folder and each request in its place, as long
as the options of its bodies are settled.
-/

namespace ApiCollection

open Json (present nonEmpty? fields? single? needed? orElse? optional? list? string? bool?)

namespace Json

variable {α : Type}

private theorem filter_present_eq_nil {name : String} {fields : List (String × Option Json)}
    (absent : name ∉ fields.map Prod.fst) : (present fields).filter (fun m => m.1 == name) = [] := by
  rw [List.filter_eq_nil_iff]
  intro m hm
  obtain ⟨⟨key, value⟩, member, written⟩ := List.mem_filterMap.1 hm
  obtain ⟨v, -, rfl⟩ := Option.map_eq_some_iff.1 written
  rw [beq_iff_eq]
  rintro rfl
  exact absent (List.mem_map_of_mem member)

/-- A field is read as it is written, also when it is absent. -/
theorem single?_present {fields : List (String × Option Json)}
    (distinct : (fields.map Prod.fst).Nodup) {name : String} {value : Option Json}
    (member : (name, value) ∈ fields) : single? (present fields) name = some value := by
  have found : (present fields).filter (fun m => m.1 == name) =
      (value.map fun v => (name, v)).toList := by
    induction fields with
    | nil => cases member
    | cons field fields ih =>
      obtain ⟨key, content⟩ := field
      rw [List.map_cons, List.nodup_cons] at distinct
      have split : present ((key, content) :: fields) =
          (content.map fun v => (key, v)).toList ++ present fields := by
        cases content <;> rfl
      rw [split, List.filter_append]
      obtain same | later := List.mem_cons.1 member
      · rw [Prod.mk.injEq] at same
        obtain ⟨rfl, rfl⟩ := same
        rw [filter_present_eq_nil distinct.1, List.append_nil]
        cases value <;> simp
      · have other : key ≠ name := by
          rintro rfl
          exact distinct.1 (List.mem_map.2 ⟨_, later, rfl⟩)
        rw [ih distinct.2 later]
        cases content <;> simp [other]
  rw [single?, found]
  cases value <;> rfl

/-- The fields of a record are read as they are written. -/
theorem fields?_present (names : List String) (values : List (Option Json))
    (distinct : names.Nodup) (lengths : names.length = values.length) :
    fields? names (.object (present (names.zip values))) = some values := by
  have first : (names.zip values).map Prod.fst = names := List.map_fst_zip (Nat.le_of_eq lengths)
  have second : (names.zip values).map Prod.snd = values := List.map_snd_zip (Nat.le_of_eq lengths.symm)
  have each : ∀ part ⊆ names.zip values,
      (part.map Prod.fst).mapM (single? (present (names.zip values))) =
        some (part.map Prod.snd) := by
    intro part
    induction part with
    | nil => exact fun _ => rfl
    | cons field part ih =>
      intro subset
      rw [List.cons_subset] at subset
      rw [List.map_cons, List.mapM_cons, single?_present (first.symm ▸ distinct) subset.1,
        ih subset.2]
      rfl
  have whole := each _ (List.Subset.refl _)
  rw [first, second] at whole
  exact whole

theorem optional?_map {read : Json → Option α} (write : α → Json) {field : Option α}
    (back : ∀ a ∈ field, read (write a) = some a) (apart : ∀ a, write a ≠ .null) :
    optional? read (field.map write) = some field := by
  cases field with
  | none => rfl
  | some a =>
    rw [Option.map_some, optional?, back a rfl]
    · rfl
    · exact apart a

theorem mapM_map {read : Json → Option α} {write : α → Json} {items : List α}
    (back : ∀ a ∈ items, read (write a) = some a) :
    (items.map write).mapM read = some items := by
  induction items with
  | nil => rfl
  | cons a items ih =>
    rw [List.forall_mem_cons] at back
    rw [List.map_cons, List.mapM_cons, back.1, ih back.2]
    rfl

end Json

section Fields

variable {α : Type} {read : Json → Option α} {write : α → Json} {items : List α}

theorem listField?_array (back : ∀ a ∈ items, read (write a) = some a) :
    listField? read (some (.array (items.map write))) = some items := Json.mapM_map back

/-- An empty list is left out, and what is left out is read as an empty list. -/
theorem listField?_nonEmpty? (back : ∀ a ∈ items, read (write a) = some a) :
    listField? read (nonEmpty? (items.map write)) = some items := by
  cases items with
  | nil => rfl
  | cons a items => exact listField?_array back

theorem optional?_string (s : Option String) :
    optional? string? (s.map Json.string) = some s :=
  Json.optional?_map Json.string (fun _ _ => rfl) fun _ null => Json.noConfusion null

theorem optional?_bool (b : Option Bool) : optional? bool? (b.map Json.bool) = some b :=
  Json.optional?_map Json.bool (fun _ _ => rfl) fun _ null => Json.noConfusion null

/-- A value that is null is read as no value. -/
theorem optional?_ofOptionString (s : Option String) :
    optional? string? (some (.ofOptionString s)) = some s := by
  cases s <;> rfl

end Fields

theorem Variable.ofJson?_toJson (v : Variable) : Variable.ofJson? v.toJson = some v := by
  have fields : fields? _ v.toJson = _ := Json.fields?_present
    ["key", "value", "type", "description"]
    [some (.string v.key), some (.string v.value), v.type.map .string,
      v.description.map .string] (by decide) rfl
  rw [Variable.ofJson?, fields]
  simp [needed?, text?, orElse?, string?, optional?_string]

theorem Header.ofJson?_toJson (h : Header) : Header.ofJson? h.toJson = some h := by
  have fields : fields? _ h.toJson = _ := Json.fields?_present
    ["key", "value", "type", "disabled", "description"]
    [some (.string h.key), some (.string h.value), h.type.map .string,
      h.disabled.map .bool, h.description.map .string] (by decide) rfl
  rw [Header.ofJson?, fields]
  simp [needed?, string?, optional?_string, optional?_bool]

private theorem QueryParameter.ofJson?_toJson (q : QueryParameter) :
    QueryParameter.ofJson? q.toJson = some q := by
  have fields : fields? _ q.toJson = _ := Json.fields?_present
    ["key", "value", "description", "disabled"]
    [some (.string q.key), some (.ofOptionString q.value), q.description.map .string,
      q.disabled.map .bool] (by decide) rfl
  rw [QueryParameter.ofJson?, fields]
  simp [needed?, string?, optional?_string, optional?_bool, optional?_ofOptionString]

private theorem Url.ofJson?_toJson (u : Url) : Url.ofJson? u.toJson = some u := by
  have fields : fields? _ u.toJson = _ := Json.fields?_present
    ["raw", "host", "path", "query", "variable"]
    [some (.string u.raw), some (.array (u.host.map .string)),
      some (.array (u.path.map .string)), nonEmpty? (u.query.map QueryParameter.toJson),
      nonEmpty? (u.pathVariables.map Variable.toJson)] (by decide) rfl
  have texts (l : List String) : listField? string? (some (.array (l.map .string))) = some l :=
    listField?_array fun _ _ => rfl
  rw [Url.ofJson?, fields]
  simp [text?, orElse?, string?, texts,
    listField?_nonEmpty? fun q _ => QueryParameter.ofJson?_toJson q,
    listField?_nonEmpty? fun v _ => Variable.ofJson?_toJson v]

def Payload.Settled (b : Payload) : Prop := b.options.settled = b.options

def Request.Settled (r : Request) : Prop := ∀ b ∈ r.body, b.Settled

structure RequestItem.Settled (r : RequestItem) : Prop where
  request : r.request.Settled
  responses : ∀ s ∈ r.responses, ∀ q ∈ s.request, q.Settled

def Collection.Settled (c : Collection) : Prop := ∀ r ∈ c.requests, r.Settled

private theorem Payload.ofJson?_toJson {b : Payload} (settled : b.Settled) :
    Payload.ofJson? b.toJson = some b := by
  have fields : fields? _ b.toJson = _ := Json.fields?_present
    ["mode", "raw", "options"]
    [some (.string b.mode), some (.string b.raw),
      if b.options.isNull then none else some b.options] (by decide) rfl
  have options : ((if b.options.isNull then none else some b.options).getD .null).settled =
      b.options := by
    split
    · rename_i null
      cases b' : b.options <;> simp_all [Json.isNull, Json.settled]
    · exact settled
  rw [Payload.ofJson?, fields]
  simp [needed?, text?, orElse?, string?, options]

theorem Request.ofJson?_toJson {r : Request} (settled : r.Settled) :
    Request.ofJson? r.toJson = some r := by
  have fields : fields? _ r.toJson = _ := Json.fields?_present
    ["method", "header", "body", "url", "description"]
    [some (.string r.method), some (.array (r.headers.map Header.toJson)),
      r.body.map Payload.toJson, some r.url.toJson, r.description.map .string] (by decide) rfl
  have body : optional? Payload.ofJson? (r.body.map Payload.toJson) = some r.body :=
    Json.optional?_map Payload.toJson (fun b hb => Payload.ofJson?_toJson (settled b hb))
      fun _ => nofun
  rw [Request.ofJson?, fields]
  simp [needed?, string?, listField?_array fun h _ => Header.ofJson?_toJson h, body,
    Url.ofJson?_toJson, optional?_string]

private theorem natBelow?_int {bound n : Nat} (below : n < bound) :
    Json.natBelow? bound (.int n) = some n := by
  simp [Json.natBelow?, Json.int, below]

private theorem statusCode?_int (code : UInt16) : statusCode? (.int code.toNat) = some code := by
  rw [statusCode?, natBelow?_int code.toNat_lt, Option.map_some, UInt16.ofNat_toNat]

private theorem SavedResponse.ofJson?_toJson {r : SavedResponse}
    (settled : ∀ q ∈ r.request, q.Settled) :
    SavedResponse.ofJson? r.toJson = some r := by
  have fields : fields? _ r.toJson = _ := Json.fields?_present
    ["name", "originalRequest", "status", "code", "_postman_previewlanguage", "header", "body"]
    [some (.string r.name), r.request.map Request.toJson, some (.string r.status),
      some (.int r.code.toNat), r.language.map .string,
      some (.array (r.headers.map Header.toJson)), r.body.map .string] (by decide) rfl
  have request : optional? Request.ofJson? (r.request.map Request.toJson) = some r.request :=
    Json.optional?_map Request.toJson (fun q hq => Request.ofJson?_toJson (settled q hq))
      fun _ => nofun
  have text (t : String) : needed? string? (some (.string t)) = some t := rfl
  have code : needed? statusCode? (some (.int r.code.toNat)) = some r.code :=
    (Option.bind_some _ _).trans (statusCode?_int r.code)
  have headers : listField? Header.ofJson? (some (.array (r.headers.map Header.toJson))) =
      some r.headers := listField?_array fun h _ => Header.ofJson?_toJson h
  rw [SavedResponse.ofJson?, fields]
  simp only [Option.bind_eq_bind, Option.bind_some]
  rw [text, request, text, code, optional?_string, headers, optional?_string]
  rfl

private theorem RequestItem.ofJson?_toJson {r : RequestItem} (settled : r.Settled) :
    RequestItem.ofJson? r.toJson = some r := by
  have fields : fields? _ r.toJson = _ := Json.fields?_present
    ["name", "request", "response"]
    [some (.string r.name), some r.request.toJson,
      some (.array (r.responses.map SavedResponse.toJson))] (by decide) rfl
  have responses : listField? SavedResponse.ofJson?
      (some (.array (r.responses.map SavedResponse.toJson))) = some r.responses :=
    listField?_array fun s hs => SavedResponse.ofJson?_toJson (settled.responses s hs)
  rw [RequestItem.ofJson?, fields]
  simp [needed?, string?, Request.ofJson?_toJson settled.request, responses]

private theorem CollectionInfo.ofJson?_toJson (i : CollectionInfo) :
    CollectionInfo.ofJson? i.toJson = some i := by
  have fields : fields? _ i.toJson = _ := Json.fields?_present
    ["_postman_id", "name", "description", "schema"]
    [i.identifier.map .string, some (.string i.name), i.description.map .string,
      some (.string i.schema)] (by decide) rfl
  rw [CollectionInfo.ofJson?, fields]
  simp [needed?, string?, optional?_string]

namespace Item

theorem listJson_eq_map (items : List Item) : listJson items = items.map toJson := by
  induction items with
  | nil => rfl
  | cons i items ih => rw [listJson, ih, List.map_cons]

theorem ofList?_eq_mapM (js : List Json) : ofList? js = js.mapM ofJson? := by
  induction js with
  | nil => rfl
  | cons j js ih =>
    rw [ofList?, ih, List.mapM_cons]
    cases ofJson? j <;> cases js.mapM ofJson? <;> rfl

private theorem folderHead?_toJson (name : String) (description : Option String) (items : Json) :
    folderHead? (present [("name", some (.string name)),
      ("description", description.map .string), ("item", some items)]) =
        some (name, description) := by
  have fields : fields? _ (.object (present
      [("name", some (.string name)), ("description", description.map .string),
        ("item", some items)])) = _ := Json.fields?_present
    ["name", "description", "item"]
    [some (.string name), description.map .string, some items] (by decide) rfl
  rw [folderHead?, fields]
  simp [needed?, string?, optional?_string]

/-- A request has no items, so that it is never taken for a folder. -/
theorem folderHead?_request (r : RequestItem) : folderHead? [("name", .string r.name),
    ("request", r.request.toJson), ("response", .array (r.responses.map SavedResponse.toJson))] =
      none := rfl

/-- The items of a folder are those under its key. -/
theorem ofMembers?_toJson (name : String) (description : Option String) (items : List Json) :
    ofMembers? (present [("name", some (.string name)), ("description", description.map .string),
      ("item", some (.array items))]) = ofList? items := by
  cases description <;> simp [present, ofMembers?, ofItems?]

/-- A node is read as what it is, a folder or a request, at any depth. -/
theorem ofJson?_toJson {i : Item} (settled : ∀ r ∈ i.requests, r.Settled) :
    ofJson? i.toJson = some i := by
  induction i using induct with
  | folder name description items ih =>
    rw [requests_folder] at settled
    have below : ofList? (items.map toJson) = some items := by
      rw [ofList?_eq_mapM]
      exact Json.mapM_map fun i hi =>
        ih i hi fun r hr => settled r (List.mem_flatMap.2 ⟨i, hi, hr⟩)
    rw [toJson, listJson_eq_map, ofJson?, folderHead?_toJson, ofMembers?_toJson, below]
  | request r =>
    have whole := RequestItem.ofJson?_toJson (settled r List.mem_cons_self)
    rw [RequestItem.toJson] at whole
    rw [toJson, RequestItem.toJson, ofJson?, folderHead?_request, whole]
    rfl

end Item

theorem Collection.ofJson?_toJson {c : Collection} (settled : c.Settled) :
    Collection.ofJson? c.toJson = some c := by
  have fields : fields? _ c.toJson = _ := Json.fields?_present
    ["info", "item", "variable"]
    [some c.info.toJson, some (.array (Item.listJson c.items)),
      some (.array (c.sharedVariables.map Variable.toJson))] (by decide) rfl
  rw [Collection.Settled, Collection.requests, Item.requestsOf_eq_flatMap] at settled
  have items : listField? Item.ofJson? (some (.array (Item.listJson c.items))) =
      some c.items := by
    rw [Item.listJson_eq_map]
    exact listField?_array fun i hi => Item.ofJson?_toJson fun r hr =>
      settled r (List.mem_flatMap.2 ⟨i, hi, hr⟩)
  rw [Collection.ofJson?, fields]
  simp [needed?, CollectionInfo.ofJson?_toJson, items,
    listField?_array fun v _ => Variable.ofJson?_toJson v]

end ApiCollection
