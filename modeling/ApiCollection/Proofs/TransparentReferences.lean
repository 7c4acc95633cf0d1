import ApiCollection.Proofs.UsedValues

/-!
# References in converted documents

A reference in the place of a value that an operation uses leaves the collection of a document as it
is, but for one reader: the type that stands for the value of a parameter is taken from the schema
as it is written.
-/

namespace ApiCollection.Conversion

/-- The texts that stand for the values of the parameters of an operation, by location. -/
def parameterTexts (document : Json) (source : ValueSource) (o : Operation) : List (List String) :=
  let parameters := mergeParameters document o.shared (o.content.get? "parameters")
  ["path", "query", "header"].map fun location =>
    (located location parameters).map fun e => parameterText document source e.2

/-- What a request shows of a parameter: its name, its value and its description. -/
abbrev Shown := String × String × Option String

def shown (document : Json) (source : ValueSource) (parameters : List Json) (location : String) :
    List Shown :=
  (located location parameters).map fun e =>
    (e.1, parameterText document source e.2, description? e.2)

def requestShowing (o : Operation) (shown : String → List Shown) (body : Option (String × Json)) :
    Request :=
  let url : Url := {
    host := [baseUrlReference]
    path := addressSegments o.path
    query := (shown "query").map fun e =>
      { key := e.1, value := some e.2.1, description := e.2.2 }
    pathVariables := (shown "path").map fun e =>
      { key := e.1, value := e.2.1, type := some "any", description := e.2.2 } }
  { method := Text.uppercase o.method
    headers := (shown "header").map (fun e =>
        { Header.text e.1 e.2.1 with description := e.2.2 }) ++
      (body.map fun e => Header.text "Content-Type" e.1).toList
    body := body.map fun e => Payload.json e.2.pretty
    url := url.rebuild
    description := description? o.content }

private theorem requestOf_eq (document : Json) (options : Options) (o : Operation)
    (parameters : List Json) : requestOf document options o parameters =
      requestShowing o (shown document options.parameters parameters)
        (requestBody? document options.examples parameters o.content) := by
  simp only [requestOf, requestShowing, shown, List.map_map]
  rfl

namespace Referral

variable {x : Referral} {v v' : Json} {parameters parameters' : List Json}

/-- Whether the use is the schema of a parameter: of an entry of a list of parameters, or of
something that a reference leads to. -/
def isParameterSchema (x : Referral) : Bool :=
  x.use.getLast? == some "schema" && (x.plain.references.contains x.use.dropLast ||
    x.use.dropLast.dropLast.getLast? == some "parameters")

def Parameter (x : Referral) : Json → Json → Prop :=
  x.Alike fun rest => rest ≠ [] ∧ x.BehindEntry "parameters" rest ∨ x.Led rest

def Listed (x : Referral) (list list' : Option Json) : Prop :=
  Option.Rel (List.Forall₂ (x.Alike (x.BehindEntry "parameters"))) (list.bind Json.items?)
    (list'.bind Json.items?)

theorem Parameter.inner (h : x.Parameter v v') : x.Inner v v' :=
  h.mono fun _ hP => hP.elim (fun hP => ⟨hP.1, hP.2.behind⟩) fun led => ⟨led.1, led.behind⟩

theorem name_eq (h : x.Inner v v') : v.getString? "name" = v'.getString? "name" :=
  h.getString?_plain "name" (by decide)

theorem location_eq (h : x.Inner v v') : v.getString? "in" = v'.getString? "in" :=
  h.getString?_plain "in" (by decide)

theorem description?_eq (h : x.Inner v v') : description? v = description? v' :=
  h.getString?_plain "description" (by decide)

private theorem rel_overrideParameter (h : x.Parameter v v')
    (list : List.Forall₂ x.Parameter parameters parameters') : List.Forall₂ x.Parameter
      (overrideParameter v parameters) (overrideParameter v' parameters') := by
  have keys {w w' : Json} (h : x.Parameter w w') : parameterKey w = parameterKey w' := by
    rw [parameterKey, parameterKey, name_eq h.inner, location_eq h.inner]
  induction list with
  | nil => exact .cons h .nil
  | cons first rest ih =>
    rw [overrideParameter, overrideParameter, keys first, keys h]
    split
    · exact .cons h rest
    · exact .cons first ih

private theorem rel_mergeParameters {shared shared' own own' : Option Json}
    (first : x.Listed shared shared') (second : x.Listed own own') : List.Forall₂ x.Parameter (mergeParameters x.plain shared own)
      (mergeParameters x.referred shared' own') := by
  have written : List.Forall₂ (x.Alike (x.BehindEntry "parameters"))
      ([shared, own].flatMap fun list => (list.bind Json.items?).getD [])
      ([shared', own'].flatMap fun list => (list.bind Json.items?).getD []) := by
    simp only [List.flatMap_cons, List.flatMap_nil]
    exact List.rel_append (rel_getD first) (List.rel_append (rel_getD second) .nil)
  have resolved : List.Forall₂ x.Parameter _ _ :=
    List.rel_map (fun _ _ h => resolve_alike (fun _ => BehindEntry.behind) h) written
  exact List.rel_foldl (fun _ _ merged v v' (h : x.Parameter v v') =>
    rel_overrideParameter h merged) .nil resolved

theorem rel_located (list : List.Forall₂ x.Parameter parameters parameters') (location : String) :
    List.Forall₂ (fun e e' => e.1 = e'.1 ∧ x.Parameter e.2 e'.2) (located location parameters)
      (located location parameters') := by
  refine List.rel_filterMap (fun p p' h => ?_) list
  rw [location_eq h.inner, name_eq h.inner]
  split
  · cases p'.getString? "name" with
    | none => exact .none
    | some name => exact .some ⟨rfl, h⟩
  · exact .none

private theorem schema_used (h : x.Inner v v') :
    x.Used ((v.get? "schema").getD v) ((v'.get? "schema").getD v') := by
  have schema := h.get?_part "schema" (by decide)
  generalize v.get? "schema" = a, v'.get? "schema" = b at schema
  cases schema with
  | none => exact h.used
  | some schema => exact schema

theorem examples_eq (h : x.Inner v v') :
    (v.get? "example").or (namedExample? (v.get? "examples")) =
      (v'.get? "example").or (namedExample? (v'.get? "examples")) := by
  rw [h.get?_plain "example" (by decide),
    h.get?_plain "examples" (by decide)]

private theorem parameterText_example_eq (h : x.Inner v v') :
    parameterText x.plain .example v = parameterText x.referred .example v' := by
  unfold parameterText
  simp only [examples_eq h, sample_eq (schema_used h)]

private theorem placeholder_referenceTo (pointer : String) :
    placeholder (referenceTo pointer) = "<any>" := by
  simp [placeholder, referenceTo, Json.get?, Json.members?, Table.get?_cons]

private theorem isParameterSchema_of_schema {rest : List String}
    (h : rest ≠ [] ∧ x.BehindEntry "parameters" rest ∨ x.Led rest) (here : rest = ["schema"]) :
    x.isParameterSchema = true := by
  subst here
  rcases h with ⟨-, -, step, front, use⟩ | ⟨-, -, along, found, split⟩
  · have around : x.use = (front ++ ["parameters", step]) ++ ["schema"] := by
      rw [← use, List.append_assoc]
      rfl
    simp [isParameterSchema, around]
  · simp [isParameterSchema, split, found]

/-- The type for a parameter is taken from its schema without looking behind a reference. -/
theorem parameterText_schema_eq (h : x.Parameter v v')
    (other : x.isParameterSchema = false ∨ placeholder x.value = "<any>") :
    parameterText x.plain .schema v = parameterText x.referred .schema v' := by
  have text (document w : Json) :
      parameterText document .schema w = placeholder ((w.get? "schema").getD w) := rfl
  have schema := Alike.get? h (by simp [Led]) "schema"
  rw [text, text]
  generalize v.get? "schema" = a, v'.get? "schema" = b at schema
  cases schema with
  | none => exact placeholder_eq h.inner
  | @some schema schema' alike =>
    obtain ⟨inside, rfl | ⟨rest, hP, replaced⟩⟩ := alike
    · rfl
    · by_cases here : rest = []
      · subst here
        cases replaced
        rcases other with other | untyped
        · rw [isParameterSchema_of_schema hP rfl] at other
          cases other
        · exact untyped.trans (placeholder_referenceTo x.pointer).symm
      · have behind : x.Behind ("schema" :: rest) :=
          hP.elim (fun hP => hP.2.behind) fun led => led.behind
        exact placeholder_eq ⟨inside, .inr ⟨rest, ⟨here, behind.part (by decide)⟩, replaced⟩⟩

theorem mediaValue_eq (h : x.Inner v v') (source : ValueSource) :
    mediaValue x.plain source v = mediaValue x.referred source v' := by
  have schema := h.get?_part "schema" (by decide)
  unfold mediaValue
  rw [examples_eq h]
  generalize v.get? "schema" = a, v'.get? "schema" = b at schema
  cases schema with
  | none => cases source <;> rfl
  | some schema =>
    cases source
    · simp only [Option.map_some, sample_eq schema]
    · simp only [Option.map_some, placeholder_eq (resolve_used schema)]

theorem rel_pickMedia? {value value' : Option Json} (h : Option.Rel x.Inner value value') :
    Option.Rel (fun e e' => e.1 = e'.1 ∧ x.Inner e.2 e'.2)
      (pickMedia? (value.bind (·.get? "content"))) (pickMedia? (value'.bind (·.get? "content"))) := by
  cases h with
  | none => exact .none
  | some h =>
    refine rel_bind h.content fun members members' related => rel_or ?_ ?_
    · exact rel_find? related fun e e' alike =>
        congrArg (fun type : String => Text.occursIn "json".toList type.toList) alike.1
    · cases related with
      | nil => exact .none
      | cons first _ => exact .some first

private theorem requestBody?_eq (h : x.Inner v v')
    (list : List.Forall₂ x.Parameter parameters parameters') (source : ValueSource) :
    requestBody? x.plain source parameters v =
      requestBody? x.referred source parameters' v' := by
  have body := rel_map (h.get?_part "requestBody" (by decide)) fun _ _ => resolve_used
  have media := rel_pickMedia? body
  have schemas : List.Forall₂ x.Used
      ((located "body" parameters).filterMap fun e => e.2.get? "schema")
      ((located "body" parameters').filterMap fun e => e.2.get? "schema") :=
    List.rel_filterMap (fun (e e' : String × Json) (alike : e.1 = e'.1 ∧ x.Parameter e.2 e'.2) =>
      alike.2.inner.get?_part "schema" (by decide)) (rel_located list "body")
  have samples := map_eq_of_rel schemas fun _ _ schema =>
    congrArg (fun value => ("application/json", value)) (sample_eq schema)
  unfold requestBody?
  dsimp only
  generalize pickMedia? (((v.get? "requestBody").map _).bind _) = a,
    pickMedia? (((v'.get? "requestBody").map _).bind _) = b at media ⊢
  cases media with
  | none =>
    dsimp only
    rw [← List.getLast?_map, ← List.getLast?_map]
    exact congrArg List.getLast? samples
  | @some e e' alike =>
    obtain ⟨type, media⟩ := e
    obtain ⟨type', media'⟩ := e'
    obtain ⟨rfl, inner⟩ : type = type' ∧ x.Inner media media' := alike
    exact congrArg (fun value => some (type, value)) (mediaValue_eq inner source)

private theorem responseValue?_eq (h : x.Inner v v') (source : ValueSource) :
    responseValue? x.plain source v = responseValue? x.referred source v' := by
  have media : Option.Rel _ (pickMedia? (v.get? "content")) (pickMedia? (v'.get? "content")) :=
    rel_pickMedia? (.some h)
  have schema := h.get?_part "schema" (by decide)
  unfold responseValue?
  generalize pickMedia? (v.get? "content") = a, pickMedia? (v'.get? "content") = b at media
  generalize v.get? "schema" = c, v'.get? "schema" = d at schema
  cases media with
  | none =>
    cases schema with
    | none => rfl
    | some schema => exact congrArg some (sample_eq schema)
  | some alike => exact congrArg some (mediaValue_eq alike.2 source)

private theorem savedResponse_eq (h : x.Used v v') (source : ValueSource) (request : Request)
    (status : String) : savedResponse x.plain source request status v =
      savedResponse x.referred source request status v' := by
  have inner := resolve_used h
  simp only [savedResponse, description?_eq inner, responseValue?_eq inner]

/-- The two documents differ below their paths only. -/
theorem documents (x : Referral) :
    x.Alike (fun rest => isDocumentUse rest = true ∧ rest <:+ x.use) x.plain x.referred :=
  ⟨List.Subset.refl _, .inr ⟨x.use, ⟨x.used, List.suffix_refl _⟩, x.replaced⟩⟩

theorem get?_document (x : Referral) {key : String} (other : key ≠ "paths") :
    x.plain.get? key = x.referred.get? key := by
  have outside : ¬(isDocumentUse [] = true ∧ [] <:+ x.use) := fun use => absurd use.1 (by decide)
  refine eq_of_rel (x.documents.get? outside key) fun _ _ alike => alike.eq fun rest hP => ?_
  have use := hP.1
  unfold isDocumentUse at use
  split at use
  · rename_i same
    exact other (List.cons.inj same).1
  · rename_i same
    exact other (List.cons.inj same).1
  · cases use

private theorem savedResponses_eq (h : x.Inner v v') (options : Options) (request : Request) :
    savedResponses x.plain options v request = savedResponses x.referred options v' request := by
  have secured : isSecured x.plain v = isSecured x.referred v' := by
    rw [isSecured, isSecured, h.get?_plain "security" (by decide),
      x.get?_document (by decide)]
  unfold savedResponses
  rw [secured]
  refine map_eq_of_rel (h.members?_list "responses" (by decide)) ?_
  rintro ⟨status, response⟩ ⟨status', response'⟩ ⟨rfl, alike⟩
  exact savedResponse_eq alike _ _ status

/-- An operation of the plain document and the one of the referred document that stands there. -/
structure Counterpart (x : Referral) (o o' : Operation) : Prop where
  path : o.path = o'.path
  method : o.method = o'.method
  content : x.Inner o.content o'.content
  shared : x.Listed o.shared o'.shared

private theorem isDocumentUse_method {path method : String} (h : method ∈ methodKeys)
    {rest : List String}
    (use : isDocumentUse ("paths" :: path :: method :: rest) = true) :
    rest ≠ [] ∧ isUse rest = true := by
  unfold isDocumentUse at use
  split at use
  · rename_i same
    simp only [List.cons.injEq, true_and] at same
    exact absurd (same.2.1 ▸ h) (by decide)
  · rename_i same
    simp only [List.cons.injEq, true_and] at same
    obtain ⟨-, rfl, rfl⟩ := same
    simpa [h] using use
  · cases use

private theorem isDocumentUse_shared {path : String} {rest : List String}
    (use : isDocumentUse ("paths" :: path :: "parameters" :: rest) = true) :
    ∃ step inner, rest = step :: inner ∧ isUse inner = true := by
  have noMethod : methodKeys.contains "parameters" = false := by decide
  cases rest with
  | nil =>
    rw [isDocumentUse, noMethod] at use
    · cases use
    · exact fun _ _ _ same => by cases same
  | cons step inner => exact ⟨step, inner, rfl, use⟩

private theorem rel_pathOperations {path : String} {item item' : Json}
    (h : x.Alike (fun rest => isDocumentUse ("paths" :: path :: rest) = true ∧
      "paths" :: path :: rest <:+ x.use) item item') :
    List.Forall₂ x.Counterpart (pathOperations path item) (pathOperations path item') := by
  have outside : ¬(isDocumentUse ["paths", path] = true ∧ ["paths", path] <:+ x.use) := by
    rintro ⟨use, -⟩
    rw [isDocumentUse] at use
    · cases use
    · exact fun _ _ _ same => by cases same
    · exact fun _ _ _ same => by cases same
  have shared : x.Listed (item.get? "parameters") (item'.get? "parameters") :=
    rel_bind (h.get? outside "parameters") fun _ _ alike =>
      rel_mono (alike.items? fun hP => by
        obtain ⟨_, _, same, -⟩ := isDocumentUse_shared hP.1
        cases same) fun _ _ items => items.imp fun _ _ parameter =>
          parameter.mono fun rest ⟨step, use, behind⟩ => by
            obtain ⟨_, _, same, use⟩ := isDocumentUse_shared use
            obtain ⟨rfl, rfl⟩ := List.cons.inj same
            exact ⟨use, step, (List.suffix_append ["paths", path] _).trans behind⟩
  have members := rel_getD (h.members? outside)
  unfold pathOperations
  generalize item.members?.getD [] = ms, item'.members?.getD [] = ms' at members
  induction members with
  | nil => exact .nil
  | @cons e e' ms ms' first rest ih =>
    obtain ⟨method, content⟩ := e
    obtain ⟨method', content'⟩ := e'
    obtain ⟨rfl, alike⟩ : method = method' ∧ _ := first
    rw [List.filter_cons, List.filter_cons]
    split
    · rename_i known
      have inner : x.Inner content content' := alike.mono fun rest hP => by
        obtain ⟨inside, use⟩ := isDocumentUse_method (List.contains_iff_mem.1 known) hP.1
        exact ⟨inside, use, (List.suffix_append ["paths", path, method] rest).trans hP.2⟩
      exact .cons ⟨rfl, rfl, inner, shared⟩ ih
    · exact ih

theorem rel_paths (x : Referral) :
    Option.Rel (List.Forall₂ fun e e' => e.1 = e'.1 ∧
      x.Alike (fun rest => isDocumentUse ("paths" :: e.1 :: rest) = true ∧
        "paths" :: e.1 :: rest <:+ x.use) e.2 e'.2)
      ((x.plain.get? "paths").bind Json.members?)
      ((x.referred.get? "paths").bind Json.members?) := by
  have outside : ¬(isDocumentUse [] = true ∧ [] <:+ x.use) := fun use => absurd use.1 (by decide)
  have outside' : ¬(isDocumentUse ["paths"] = true ∧ ["paths"] <:+ x.use) := fun use =>
    absurd use.1 (by decide)
  exact rel_bind (x.documents.get? outside "paths") fun _ _ alike => alike.members? outside'

theorem rel_operations (x : Referral) :
    List.Forall₂ x.Counterpart (operations x.plain) (operations x.referred) := by
  refine List.rel_flatMap (rel_getD x.rel_paths) ?_
  rintro ⟨path, item⟩ ⟨path', item'⟩ ⟨rfl, alike⟩
  exact rel_pathOperations alike

section Requests

variable {o o' : Operation} (h : x.Counterpart o o') {options : Options}
include h

theorem rel_parameters : List.Forall₂ x.Parameter
    (mergeParameters x.plain o.shared (o.content.get? "parameters"))
    (mergeParameters x.referred o'.shared (o'.content.get? "parameters")) :=
  rel_mergeParameters h.shared (h.content.items?_list "parameters" (by decide))

theorem folder?_eq (grouping : Grouping) : folder? grouping o = folder? grouping o' := by
  have name : Json.itemIndex? "tags" = none := by decide
  unfold folder?
  rw [Json.follow?_pair name, Json.follow?_pair name, h.content.get?_plain "tags" (by decide), h.path]

private theorem operationName_eq : operationName o = operationName o' := by
  unfold operationName
  rw [h.content.get?_plain "summary" (by decide),
    h.content.get?_plain "operationId" (by decide), h.path]

/-- The texts of parameters are all that a reference can change in a request. -/
theorem requestOf_eq_of_texts (list : List.Forall₂ x.Parameter parameters parameters')
    (texts : ∀ location ∈ ["path", "query", "header"],
      (located location parameters).map (fun e => parameterText x.plain options.parameters e.2) =
        (located location parameters').map fun e =>
          parameterText x.referred options.parameters e.2) :
    requestOf x.plain options o parameters = requestOf x.referred options o' parameters' := by
  have same (location : String) (member : location ∈ ["path", "query", "header"]) :
      shown x.plain options.parameters parameters location =
        shown x.referred options.parameters parameters' location := by
    refine map_eq_of_map_eq (rel_located list location) (texts location member) ?_
    intro e e' alike text
    rw [alike.1, text, description?_eq alike.2.inner]
  rw [requestOf_eq, requestOf_eq, requestBody?_eq h.content list]
  simp only [requestShowing, same "path" (by decide), same "query" (by decide),
    same "header" (by decide), h.path, h.method, description?_eq h.content]

omit h in
private theorem texts_of_requestOf_eq (list : List.Forall₂ x.Parameter parameters parameters')
    (same : requestOf x.plain options o parameters = requestOf x.referred options o' parameters')
    (location : String) (member : location ∈ ["path", "query", "header"]) :
    (located location parameters).map (fun e => parameterText x.plain options.parameters e.2) =
      (located location parameters').map fun e =>
        parameterText x.referred options.parameters e.2 := by
  simp only [List.mem_cons, List.not_mem_nil, or_false] at member
  obtain rfl | rfl | rfl := member
  · have inPath := congrArg (fun r => r.url.pathVariables.map Variable.value) same
    simp only [requestOf, Url.rebuild, List.map_map] at inPath
    exact inPath
  · have inQuery := congrArg (fun r => r.url.query.map fun q => q.value.getD "") same
    simp only [requestOf, Url.rebuild, List.map_map] at inQuery
    exact inQuery
  · have inHeaders := congrArg (fun r => r.headers.map Header.value) same
    simp only [requestOf, List.map_append, List.map_map] at inHeaders
    refine (List.append_inj inHeaders ?_).1
    simpa only [List.length_map] using (rel_located list "header").length_eq

/-- The type in the place of a parameter is the one text that a reference can change. -/
theorem requestItem_eq_iff :
    requestItem x.plain options o = requestItem x.referred options o' ↔
      (options.parameters = .schema →
        parameterTexts x.plain .schema o = parameterTexts x.referred .schema o') := by
  have list := rel_parameters h
  constructor
  · intro same schema
    have requests := congrArg RequestItem.request same
    have texts := texts_of_requestOf_eq list requests
    rw [schema] at texts
    exact List.map_inj_left.2 texts
  · intro same
    have texts : ∀ location ∈ ["path", "query", "header"],
        (located location (mergeParameters x.plain o.shared (o.content.get? "parameters"))).map
            (fun e => parameterText x.plain options.parameters e.2) =
          (located location (mergeParameters x.referred o'.shared
            (o'.content.get? "parameters"))).map
            fun e => parameterText x.referred options.parameters e.2 := by
      cases source : options.parameters
      · exact fun location _ =>
          map_eq_of_rel (rel_located list location) fun _ _ alike =>
            parameterText_example_eq alike.2.inner
      · exact List.map_inj_left.1 (same source)
    have requests := requestOf_eq_of_texts h list texts
    simp only [requestItem, operationName_eq h, requests, savedResponses_eq h.content]

theorem parameterTexts_schema_eq
    (other : x.isParameterSchema = false ∨ placeholder x.value = "<any>") :
    parameterTexts x.plain .schema o = parameterTexts x.referred .schema o' :=
  List.map_congr_left fun location _ =>
    map_eq_of_rel (rel_located (rel_parameters h) location) fun _ _ alike =>
      parameterText_schema_eq alike.2 other

end Requests

end Referral

end ApiCollection.Conversion
