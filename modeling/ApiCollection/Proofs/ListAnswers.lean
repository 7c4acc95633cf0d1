import ApiCollection.Proofs.DrawnMethods
import ApiCollection.Proofs.ExampleShapes
import Mathlib.Data.List.TakeWhile

/-!
# Answers that are lists

The example for the answer of a GET endpoint has one of two sources: the objects of a model class,
as many as are configured, or the value of the return type, whose arrays are pairs. So a list has
the configured size where its items are models, and where pairs are wanted.
-/

namespace ApiCollection

open Java Schema ApiCollection.Random

def Java.MethodHead.answerType (m : MethodHead) : TypeExpr :=
  .parse (String.ofList (Text.trim m.returnType.toList))

namespace Java.TypeExpr

/-- Whether a type has the shape of an array of a model class. -/
def isModelList (t : TypeExpr) : Bool :=
  match t.shape with
  | .array (.reference _) => true
  | _ => false

private theorem firstIsVoid_of_base {args : List TypeExpr}
    (h : (args.head?.getD object).base = "Void") :
    firstIsVoid args = true := by
  have family : TypeFamily.of "Void" = .named := by decide
  cases args with
  | nil => exact absurd h (by decide)
  | cons t rest =>
    obtain ⟨base, args, depth⟩ := t
    have named : base = "Void" := h
    simp [named, firstIsVoid, isVoid, family, isVoidName]

mutual

/-- A type whose value is null because of its wrappers has no values. -/
theorem isVoid_of_unwrapped? : ∀ t : TypeExpr, t.unwrapped? = none → t.isVoid = true
  | ⟨base, args, depth⟩, h => by
    rw [unwrapped?] at h
    rw [isVoid]
    split at h
    · rename_i wraps
      rw [if_pos wraps]
      split at h
      · rename_i void
        exact firstIsVoid_of_base (beq_iff_eq.1 void)
      · exact firstIsVoid_of_unwrapped? args h
    · cases h

theorem firstIsVoid_of_unwrapped? :
    ∀ args : List TypeExpr, firstUnwrapped? args = none → firstIsVoid args = true
  | [], h => by cases h
  | t :: _, h => isVoid_of_unwrapped? t h

end

/-- Nothing at all is read as the type of everything. -/
theorem parse_of_allBlank {text : String} (h : Text.allBlank text.toList = true) :
    parse text = object := by
  have empty : Text.trim text.toList = [] := by
    rw [Text.trim, Text.trimStart, List.dropWhile_eq_nil_iff.2 (List.all_eq_true.1 h)]
    rfl
  have body : splitSuffixes (dropWildcard []) = (0, []) := by
    simp [dropWildcard, splitSuffixes, dropSuffixes]
  rw [parse, ofChars, empty]
  dsimp only
  split
  · rw [body]
    rfl
  · rename_i inner inside
    rw [body] at inside
    cases inside

theorem allBlank_of_shape {text : String} (h : (parse text).shape ≠ object.shape) :
    Text.allBlank text.toList = false := by
  rw [← Bool.not_eq_true]
  intro blank
  apply h
  rw [parse_of_allBlank blank]

theorem shape_ne_of_isArray {t : TypeExpr} (h : t.shape.isArray = true) :
    t.shape ≠ object.shape := by
  intro same
  rw [same] at h
  exact absurd h (by decide)

/-- A type of its own is no text that says that there is no answer, if it is not `void`. -/
theorem hasResponses_of_shape {text : String} (h : (parse text).shape ≠ object.shape)
    (word : text ≠ "void") : Draft.hasResponses text = true := by
  have some' : text ≠ "" := by
    rintro rfl
    exact absurd (allBlank_of_shape h) (by decide)
  simp [Draft.hasResponses, word, some']

private theorem hasResponses_of_isArray {text : String} (h : (parse text).shape.isArray = true) :
    Draft.hasResponses text = true := by
  refine hasResponses_of_shape (shape_ne_of_isArray h) ?_
  rintro rfl
  exact absurd h (by decide +kernel)

end Java.TypeExpr

def Response.ListsItems (r : Response Json) (size : Nat) : Prop :=
  ∃ items, r.example? = some (.array items) ∧ items.length = size

/-- Only pairs stand for an array. -/
theorem Schema.Descriptor.pair_of_fits {t : TypeExpr} {item : Descriptor} {v : Json}
    (content : t.isVoid = false) (h : (array item).fits t v = true) :
    ∃ first second, v = .array [first, second] := by
  rw [fits] at h
  split at h
  · rename_i wrapped
    rw [TypeExpr.isVoid_of_unwrapped? t wrapped] at content
    cases content
  · dsimp only at h
    split at h
    · exact ⟨_, _, rfl⟩
    · cases h

namespace Example

/-- As many objects are answered as are asked for. -/
theorem yields_forResponses (cache : Dto.Cache) (name : String) (count : Nat) :
    Yields (forResponses cache name count) fun v =>
      ∃ items, v = .array items ∧ items.length = count := fun s =>
  ⟨_, rfl, (forall₂_run_mapM (fun _ => forResponse cache name) _ s).length_eq.symm.trans
    List.length_range⟩

/-- The value of a type of arrays is a pair. -/
theorem yields_forType {type : String} (cache : Dto.Cache)
    (array : (TypeExpr.parse type).shape.isArray = true)
    (content : (TypeExpr.parse type).isVoid = false) :
    Yields (forType cache type) fun v => ∃ items, v = .array items ∧ items.length = 2 := by
  intro s
  have written := TypeExpr.allBlank_of_shape (TypeExpr.shape_ne_of_isArray array)
  rw [forType, ofTypeText, if_neg (by simp [written])]
  have fits := fits_ofType cache s 0 (.parse type)
  cases shape : (TypeExpr.parse type).shape with
  | array item =>
    rw [shape] at fits
    obtain ⟨first, second, pair⟩ := Descriptor.pair_of_fits content fits
    exact ⟨[first, second], pair, rfl⟩
  | primitive _ _ | map | reference _ =>
    rw [shape] at array
    cases array

end Example

namespace Draft

variable {returnType : String}

/-- The answer of a GET method that returns an array is the only response. -/
theorem answers_get_of_isArray (array : (TypeExpr.parse returnType).shape.isArray = true)
    (path : String) : ∃ r : DraftResponse, answers .get returnType path = [r] ∧
      r.response.status = 200 ∧ r.response.example? =
        if (TypeExpr.parse returnType).isVoid then none
        else some (answerRecipe (TypeExpr.parse returnType).shape returnType
          (TypeExpr.parse returnType).entityName) := by
  simp only [answers, plainResponses, array, if_true, describeFirst, documented]
  split <;> exact ⟨_, rfl, rfl, rfl⟩

/-- The recipe for an array makes a list of the configured size if the items are models, and a pair
otherwise. -/
theorem yields_answerRecipe (cache : Dto.Cache) (listSize : Nat)
    (array : (TypeExpr.parse returnType).shape.isArray = true)
    (content : (TypeExpr.parse returnType).isVoid = false) (entity : String) :
    Example.Yields
      ((answerRecipe (TypeExpr.parse returnType).shape returnType entity).draw cache listSize)
      fun v => ∃ items, v = .array items ∧
        items.length = if (TypeExpr.parse returnType).isModelList then listSize else 2 := by
  have pair := Example.yields_forType cache array content
  rw [TypeExpr.isModelList]
  cases shape : (TypeExpr.parse returnType).shape with
  | array item =>
    cases item with
    | reference name => exact Example.yields_forResponses cache entity listSize
    | primitive _ _ | map | array _ => exact pair
  | primitive _ _ | map | reference _ =>
    rw [shape] at array
    cases array

/-- What is drawn for the answer is a list of the configured size if there is a value and either the
items are models or pairs are wanted. -/
theorem listsItems_drawResponse_iff (cache : Dto.Cache) {listSize : Nat}
    (array : (TypeExpr.parse returnType).shape.isArray = true) {r : DraftResponse} {entity : String}
    (recipe : r.response.example? =
      if (TypeExpr.parse returnType).isVoid then none
      else some (answerRecipe (TypeExpr.parse returnType).shape returnType entity)) (s : Stream) :
    ((drawResponse cache listSize r).run s).1.ListsItems listSize ↔
      (TypeExpr.parse returnType).isVoid = false ∧
        ((TypeExpr.parse returnType).isModelList = true ∨ listSize = 2) := by
  have shown : ((drawResponse cache listSize r).run s).1.example? =
      ((Recipe.draw? cache listSize r.response.example?).run
        ((Recipe.draw? cache listSize r.unshown).run s).2).1 := rfl
  rw [Response.ListsItems, shown, recipe]
  cases content : (TypeExpr.parse returnType).isVoid with
  | true =>
    constructor
    · rintro ⟨items, none', -⟩
      cases none'
    · exact nofun
  | false =>
    obtain ⟨items, list, length⟩ := yields_answerRecipe cache listSize array content entity
      ((Recipe.draw? cache listSize r.unshown).run s).2
    calc
      _ ↔ ∃ items', some (Json.array items) = some (.array items') ∧ items'.length = listSize := by
        rw [← list]
        rfl
      _ ↔ items.length = listSize := by simp
      _ ↔ _ := by
        rw [length]
        cases (TypeExpr.parse returnType).isModelList <;> simp [eq_comm]

/-- The draft of a method answers what the method returns. -/
theorem responses_of_ofMethod? {className base : String} {m : MethodHead} {d : Draft}
    (laidOut : ofMethod? className base m = some d) : d.responses =
      let returnType := String.ofList (Text.trim m.returnType.toList)
      if hasResponses returnType then answers d.method returnType d.path else [] := by
  simp only [ofMethod?, Option.bind_eq_bind, Option.bind_eq_some_iff, Option.pure_def,
    Option.some.injEq] at laidOut
  obtain ⟨mapping, -, same⟩ := laidOut
  have method := congrArg Draft.method same
  have path := congrArg Draft.path same
  have responses := congrArg Draft.responses same
  dsimp only at method path responses
  rw [method, path] at responses
  exact responses.symm

end Draft

variable {unit : SourceUnit} {cache : Dto.Cache} {listSize : Nat} {m : MethodHead}
  {e : Endpoint Json}

theorem SourceUnit.Draws.answer (h : unit.Draws cache listSize m e) (get : e.method = .get)
    (array : m.answerType.shape.isArray = true) :
    ∃ r, e.responses = [r] ∧ r.status = 200 ∧ (r.ListsItems listSize ↔
      m.answerType.isVoid = false ∧ (m.answerType.isModelList = true ∨ listSize = 2)) := by
  obtain ⟨d, s, laidOut, rfl⟩ := h
  have method : d.method = .get := (congrArg (·.2.1) (draw_route cache listSize d s)).symm.trans get
  obtain ⟨planned, answer, ok, recipe⟩ := Draft.answers_get_of_isArray array d.path
  have responses := Draft.responses_of_ofMethod? laidOut
  dsimp only at responses
  rw [if_pos (TypeExpr.hasResponses_of_isArray array), method, answer] at responses
  obtain ⟨s', drawn⟩ := responses_draw cache listSize d s
  rw [responses] at drawn
  exact ⟨((Draft.drawResponse cache listSize planned).run s').1, drawn, ok,
    Draft.listsItems_drawResponse_iff cache array recipe s'⟩

/-- The answer of a GET endpoint whose return type is an array is a list of the configured size
exactly if there is a value and either the items are models or pairs are wanted. -/
theorem listsItems_iff (unit : SourceUnit) (cache : Dto.Cache) (seed : UInt64) (listSize : Nat) :
    List.Forall₂ (fun m e => e.method = .get → m.answerType.shape.isArray = true →
        ∃ r, e.responses = [r] ∧ r.status = 200 ∧ (r.ListsItems listSize ↔
          m.answerType.isVoid = false ∧ (m.answerType.isModelList = true ∨ listSize = 2)))
      (unit.methods.filter MethodHead.isMapped) (unit.extract cache seed listSize).endpoints :=
  (forall₂_extract unit cache seed listSize).imp fun _ _ => SourceUnit.Draws.answer

def report (returnType : String) : MethodHead :=
  ⟨"rows", returnType, "", [⟨"GetMapping", some "\"/rows\"", "@GetMapping(\"/rows\")"⟩], 50, 3⟩

def reports (returnType : String) : SourceUnit :=
  ⟨⟨none, "ReportController", []⟩, [report returnType]⟩

theorem route_report :
    route? "" "rows" (report "").directives = some ("rows", .get, "/rows") := by decide

theorem mapped_reports (returnType : String) :
    (reports returnType).methods.filter MethodHead.isMapped = [report returnType] :=
  List.filter_cons_of_pos (congrArg Option.isSome route_report)

theorem exists_draws_report (returnType : String) (cache : Dto.Cache) (seed : UInt64)
    (listSize : Nat) : ∃ e, ((reports returnType).extract cache seed listSize).endpoints = [e] ∧
      e.method = .get ∧ (reports returnType).Draws cache listSize (report returnType) e := by
  obtain ⟨e, endpoint, drawn⟩ := exists_draws (mapped_reports returnType) cache seed listSize
  have same := Option.some.inj (drawn.route.symm.trans route_report)
  exact ⟨e, endpoint, congrArg (·.2.1) same, drawn⟩

/-- Three users are answered where three items are wanted. -/
theorem listsItems_users : ∃ e r,
    ((reports "List<UserDto>").extract {} 42 3).endpoints = [e] ∧ e.responses = [r] ∧
      r.status = 200 ∧ r.ListsItems 3 := by
  have shape : (report "List<UserDto>").answerType.shape = .array (.reference "UserDto") ∧
      (report "List<UserDto>").answerType.isVoid = false := by decide +kernel
  obtain ⟨e, endpoint, get, -⟩ := exists_draws_report "List<UserDto>" {} 42 3
  have answers := listsItems_iff (reports "List<UserDto>") {} 42 3
  rw [endpoint, mapped_reports, List.forall₂_cons, TypeExpr.isModelList, shape.1] at answers
  obtain ⟨r, answer, ok, size⟩ := answers.1 get rfl
  exact ⟨e, r, endpoint, answer, ok, size.2 ⟨shape.2, .inl rfl⟩⟩

/-- Two maps are answered where three are wanted. -/
theorem exists_not_listsItems :
    ¬∀ (unit : SourceUnit) (cache : Dto.Cache) (seed : UInt64) (listSize : Nat),
      List.Forall₂ (fun m e => e.method = .get → m.answerType.shape.isArray = true →
          ∃ r ∈ e.responses, r.status = 200 ∧ r.ListsItems listSize)
        (unit.methods.filter MethodHead.isMapped)
        (unit.extract cache seed listSize).endpoints := by
  intro all
  have shape : (report "List<Map<String, Object>>").answerType.shape = .array .map := by
    decide +kernel
  have array : (report "List<Map<String, Object>>").answerType.shape.isArray = true := by
    rw [shape]
    rfl
  obtain ⟨e, endpoint, get, drawn⟩ := exists_draws_report "List<Map<String, Object>>" {} 42 3
  have claimed := all (reports "List<Map<String, Object>>") {} 42 3
  rw [endpoint, mapped_reports, List.forall₂_cons] at claimed
  obtain ⟨r, answer, -, size⟩ := drawn.answer get array
  obtain ⟨r', member, -, listed⟩ := claimed.1 get array
  rw [answer, List.mem_singleton] at member
  rw [TypeExpr.isModelList, shape] at size
  obtain ⟨-, models | two⟩ := size.1 (member ▸ listed)
  · cases models
  · cases two

end ApiCollection
