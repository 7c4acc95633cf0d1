import ApiCollection.Proofs.DocumentPointers
import ApiCollection.Proofs.ListAnswers
import ApiCollection.Proofs.ModelNames

/-!
# Answers about models

The schema of an answer refers to the model class that the shape of the return type has, and its
example is drawn for the name behind the containers of the return type. Shape and name pass through
wrappers, collections and streams alike, but the name stops at an array suffix. So the two agree
unless an array suffix stands on a wrapper.
-/

namespace ApiCollection

open Java Schema ApiCollection.Random

/-- Whether a shape is that of a model class, or of an array of its objects. -/
def Schema.Descriptor.IsModel (d : Descriptor) (name : String) : Prop :=
  d = .reference name ∨ d = .array (.reference name)

theorem Schema.Descriptor.IsModel.referencedName {d : Descriptor} {name : String}
    (h : d.IsModel name) : d.referencedName = some name := by
  rcases h with rfl | rfl <;> rfl

namespace Java.TypeExpr

mutual

/-- Whether an array suffix stands on a wrapper, seen through wrappers without one. -/
def suffixesWrapper : TypeExpr → Bool
  | ⟨base, args, depth⟩ =>
    TypeFamily.of base == .wrapper && (depth != 0 || firstSuffixesWrapper args)

def firstSuffixesWrapper : List TypeExpr → Bool
  | [] => false
  | t :: _ => t.suffixesWrapper

end

theorem suffixed_eq_reference {base name : String} {d : Descriptor} {depth : Nat} :
    suffixed base d depth = .reference name ↔ depth = 0 ∧ d = .reference name := by
  rcases depth with _ | _ | depth
  · simp [suffixed]
  · by_cases byte : isByteName base = true <;> simp [suffixed, byte]
  · simp [suffixed]

private theorem suffixed_eq_list {base name : String} {d : Descriptor} {depth : Nat}
    (h : suffixed base d depth = .array (.reference name)) :
    depth = 0 ∧ d = .array (.reference name) ∨ depth = 1 ∧ d = .reference name := by
  rcases depth with _ | _ | depth
  · exact .inl ⟨rfl, h⟩
  · by_cases byte : isByteName base = true
    · simp [suffixed, byte] at h
    · simp [suffixed, byte] at h
      exact .inr ⟨rfl, h⟩
  · rw [suffixed, Descriptor.array.injEq, suffixed_eq_reference] at h
    omega

theorem ne_object_of_family {base : String} {family : TypeFamily} (h : TypeFamily.of base = family)
    (other : family ≠ .scalar .object none) : base ≠ "Object" := by
  rintro rfl
  apply other
  rw [← h]
  decide

mutual

/-- A type with the shape of a model class has the name of the class. -/
theorem entityName_of_reference {name : String} : ∀ t : TypeExpr, t.shape = .reference name →
    t.entityName = name ∧ t.suffixesWrapper = false
  | ⟨base, args, depth⟩, h => by
    rw [shape, suffixed_eq_reference] at h
    obtain ⟨rfl, core⟩ := h
    cases family : TypeFamily.of base with
    | scalar kind format | collection | stream | map =>
      rw [family] at core
      cases core
    | wrapper =>
      rw [family] at core
      simpa [entityName, suffixesWrapper, family] using entityName_of_firstReference args core
    | named =>
      rw [family] at core
      cases core
      simp [entityName, suffixesWrapper, family, ne_object_of_family family]

theorem entityName_of_firstReference {name : String} : ∀ args : List TypeExpr,
    firstShape args = .reference name →
      firstEntityName args = name ∧ firstSuffixesWrapper args = false
  | [], h => by cases h
  | t :: _, h => entityName_of_reference t h

end

mutual

/-- A type with the shape of an array of a model class has the name of the class unless the array
is that of a wrapper. -/
theorem entityName_eq_iff_of_list {name : String} : ∀ t : TypeExpr,
    t.shape = .array (.reference name) → (t.entityName = name ↔ t.suffixesWrapper = false)
  | ⟨base, args, depth⟩, h => by
    rw [shape] at h
    rcases suffixed_eq_list h with ⟨rfl, core⟩ | ⟨rfl, core⟩
    · cases family : TypeFamily.of base with
      | scalar kind format | map | named =>
        rw [family] at core
        cases core
      | collection | stream =>
        simp only [family, Descriptor.array.injEq] at core
        simp [entityName, suffixesWrapper, family, entityName_of_firstReference args core]
      | wrapper =>
        rw [family] at core
        simpa [entityName, suffixesWrapper, family] using
          firstEntityName_eq_iff_of_list args core
    · -- The name stops here, at the base in front of the suffix.
      cases family : TypeFamily.of base with
      | scalar kind format | map | collection | stream =>
        rw [family] at core
        cases core
      | named =>
        rw [family] at core
        cases core
        simp [entityName, suffixesWrapper, family, ne_object_of_family family]
      | wrapper =>
        have first : firstShape args = .reference name := by
          rwa [family] at core
        have model : TypeFamily.of name = .named := by
          apply family_of_firstReferencedName args
          rw [first]
          rfl
        have other : base ≠ name := by
          rintro rfl
          cases family.symm.trans model
        simp [entityName, suffixesWrapper, family, ne_object_of_family family, other]

theorem firstEntityName_eq_iff_of_list {name : String} : ∀ args : List TypeExpr,
    firstShape args = .array (.reference name) →
      (firstEntityName args = name ↔ firstSuffixesWrapper args = false)
  | [], h => by cases h
  | t :: _, h => entityName_eq_iff_of_list t h

end

end Java.TypeExpr

def HttpMethod.showsAnswer : HttpMethod → Bool
  | .get | .post | .put | .patch => true
  | .delete | .options | .head => false

def Example.forShape (cache : Dto.Cache) (listSize : Nat) (shape : Descriptor) (name : String) :
    Draw Json :=
  if shape.isArray then forResponses cache name listSize else forResponse cache name

namespace Draft

private theorem exists_plainResponses (method : HttpMethod) (shape : Descriptor) (answer : Recipe)
    (entity path : String) : ∃ first rest,
      plainResponses method shape answer entity path = first :: rest ∧
        first.response.schema = none ∧
        first.response.example? = if method.showsAnswer then some answer else none := by
  cases method with
  | get =>
    rw [plainResponses]
    split <;> exact ⟨_, _, rfl, rfl, rfl⟩
  | post | put | patch | delete | options | head => exact ⟨_, _, rfl, rfl, rfl⟩

/-- The first response describes the shape of the return type, and follows the recipe for it. -/
theorem exists_answers {returnType : String}
    (content : (TypeExpr.parse returnType).isVoid = false) (method : HttpMethod) (path : String) :
    ∃ first rest, answers method returnType path = first :: rest ∧
      first.response.schema = some (ofDescriptor (TypeExpr.parse returnType).shape) ∧
      first.response.example? = if method.showsAnswer then
        some (answerRecipe (TypeExpr.parse returnType).shape returnType
          (TypeExpr.parse returnType).entityName) else none := by
  obtain ⟨first, rest, plain, -, example'⟩ := exists_plainResponses method
    (TypeExpr.parse returnType).shape
    (answerRecipe (TypeExpr.parse returnType).shape returnType
      (TypeExpr.parse returnType).entityName) (TypeExpr.parse returnType).entityName path
  simp only [answers, plain, describeFirst, content, Bool.false_eq_true, if_false]
  exact ⟨_, rest, rfl, rfl, example'⟩

private theorem draw_answerRecipe {shape : Descriptor} {name : String} (model : shape.IsModel name)
    (cache : Dto.Cache) (listSize : Nat) (returnType entity : String) :
    (answerRecipe shape returnType entity).draw cache listSize =
      Example.forShape cache listSize shape entity := by
  rcases model with rfl | rfl <;> rfl

private theorem hasResponses_of_isModel {returnType name : String}
    (model : (TypeExpr.parse returnType).shape.IsModel name)
    (content : (TypeExpr.parse returnType).isVoid = false) : hasResponses returnType = true := by
  refine TypeExpr.hasResponses_of_shape ?_ ?_
  · intro same
    have referenced := model.referencedName
    rw [same] at referenced
    have none' : TypeExpr.object.shape.referencedName = none := by decide
    cases none'.symm.trans referenced
  · rintro rfl
    exact absurd content (by decide +kernel)

end Draft

/-- Whether the first response of an endpoint refers to the component of a model class, and shows
what is drawn for some name. -/
def Endpoint.AnswersWith (e : Endpoint Json) (component : String) (shown : Draw Json) : Prop :=
  ∃ first rest, e.responses = first :: rest ∧
    (∃ schema, first.schema = some schema ∧ schema.pointers = [pointer component]) ∧
    if e.method.showsAnswer then ∃ s, first.example? = some (shown.run s).1
    else first.example? = none

private theorem SourceUnit.Draws.answersWith {unit : SourceUnit} {cache : Dto.Cache}
    {listSize : Nat}
    {m : MethodHead} {e : Endpoint Json} (h : unit.Draws cache listSize m e) {name : String}
    (model : m.answerType.shape.IsModel name) (content : m.answerType.isVoid = false) :
    e.AnswersWith name
      (Example.forShape cache listSize m.answerType.shape m.answerType.entityName) := by
  obtain ⟨d, s, laidOut, rfl⟩ := h
  have method : ((d.draw cache listSize).run s).1.method = d.method :=
    congrArg (·.2.1) (draw_route cache listSize d s)
  have responses := Draft.responses_of_ofMethod? laidOut
  dsimp only at responses
  rw [if_pos (Draft.hasResponses_of_isModel model content)] at responses
  obtain ⟨first, rest, answers, schema, recipe⟩ := Draft.exists_answers content d.method d.path
  obtain ⟨s', drawn⟩ := responses_draw cache listSize d s
  rw [responses, answers, List.mapM_cons] at drawn
  refine ⟨((Draft.drawResponse cache listSize first).run s').1, _, drawn, ⟨_, schema, ?_⟩, ?_⟩
  · rw [pointers_ofDescriptor]
    exact congrArg (fun n => (n.map pointer).toList) model.referencedName
  · have shown : ((Draft.drawResponse cache listSize first).run s').1.example? =
        ((Recipe.draw? cache listSize first.response.example?).run
          ((Recipe.draw? cache listSize first.unshown).run s').2).1 := rfl
    rw [method, shown, recipe]
    split
    · rw [← Draft.draw_answerRecipe model cache listSize
        (String.ofList (Text.trim m.returnType.toList))]
      exact ⟨_, rfl⟩
    · rfl

/-- Where the shape of a return type is that of a model class or of an array of it, the entity name
is that of the class exactly if no array suffix stands on a wrapper. The schema of the answer
refers to the class in either case, and the example is drawn for the entity name. -/
theorem entityName_eq_iff {returnType name : String}
    (model : (TypeExpr.parse returnType).shape.IsModel name) :
    let t := TypeExpr.parse returnType
    (t.entityName = name ↔ t.suffixesWrapper = false) ∧
      ∀ (unit : SourceUnit) (cache : Dto.Cache) (seed : UInt64) (listSize : Nat),
        List.Forall₂ (fun m e => m.answerType = t → t.isVoid = false →
            e.AnswersWith name (Example.forShape cache listSize t.shape t.entityName))
          (unit.methods.filter MethodHead.isMapped)
          (unit.extract cache seed listSize).endpoints := by
  intro t
  constructor
  · rcases model with reference | list
    · simp [t, TypeExpr.entityName_of_reference _ reference]
    · exact TypeExpr.entityName_eq_iff_of_list _ list
  · intro unit cache seed listSize
    refine (forall₂_extract unit cache seed listSize).imp fun m e drawn same content => ?_
    subst t
    rw [← same] at model content ⊢
    exact drawn.answersWith model content

/-- Orders behind a wrapper and a stream are answered with orders. -/
theorem entityName_orders : (TypeExpr.parse "ResponseEntity<Flux<OrderDto>>").shape =
      .array (.reference "OrderDto") ∧
    (TypeExpr.parse "ResponseEntity<Flux<OrderDto>>").entityName = "OrderDto" := by
  have shape : (TypeExpr.parse "ResponseEntity<Flux<OrderDto>>").shape =
      .array (.reference "OrderDto") := by decide +kernel
  have plain : (TypeExpr.parse "ResponseEntity<Flux<OrderDto>>").suffixesWrapper = false := by
    decide +kernel
  exact ⟨shape, (entityName_eq_iff (.inr shape)).1.2 plain⟩

/-- An array of wrapped users has the shape of an array of users and the name of the wrapper. -/
theorem exists_entityName_ne : ¬∀ returnType name : String,
    (TypeExpr.parse returnType).shape.IsModel name →
      (TypeExpr.parse returnType).entityName = name := by
  intro all
  have named := all "Optional<UserDto>[]" "UserDto" (.inr (by decide +kernel))
  exact absurd named (by decide +kernel)

end ApiCollection
