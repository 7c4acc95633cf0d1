import ApiCollection.Proofs.ReachableComponents

/-!
# The model that a type is about

A type is about a model when its base name is that of the model, or when it is a collection, a
stream or a wrapper and its first argument is about the model; array suffixes do not matter. Both
the question whether a type has to be described by a component and the name that its shape refers
to come down to this, though each walks through the type in its own way.
-/

namespace ApiCollection.Java

def TypeFamily.isContainer : TypeFamily → Bool
  | .collection | .wrapper | .stream => true
  | .scalar _ _ | .map | .named => false

/-- The names of models are those in none of the tables. -/
theorem TypeFamily.of_eq_named_iff {base : String} : TypeFamily.of base = .named ↔
    base ∉ scalarTypes.map Prod.fst ∧ base ∉ collectionTypes ∧ base ∉ mapTypes ∧
      base ∉ wrapperTypes ∧ base ∉ streamTypes := by
  have unlisted : scalarTypes.lookup base = none ↔ base ∉ scalarTypes.map Prod.fst := by
    rw [List.lookup_eq_none_iff]
    simp only [bne_iff_ne, List.mem_map, not_exists, not_and, ne_comm, ne_eq]
  rw [← unlisted, TypeFamily.of]
  cases scalarTypes.lookup base with
  | some entry => simp
  | none =>
    simp only [List.contains_iff_mem, true_and]
    split_ifs with collection map wrapper stream <;> simp [*]

namespace TypeExpr

/-- The types that are about a model, with its name. -/
inductive IsAbout : TypeExpr → String → Prop
  | model {name : String} {args : List TypeExpr} {depth : Nat}
      (named : TypeFamily.of name = .named) : IsAbout ⟨name, args, depth⟩ name
  | inside {base name : String} {t : TypeExpr} {args : List TypeExpr} {depth : Nat}
      (container : (TypeFamily.of base).isContainer = true) (about : IsAbout t name) :
      IsAbout ⟨base, t :: args, depth⟩ name

theorem IsAbout.named {t : TypeExpr} {name : String} (about : t.IsAbout name) :
    TypeFamily.of name = .named := by
  induction about with
  | model named => exact named
  | inside _ _ ih => exact ih

/-- What the shape of a type refers to, array suffixes aside. -/
theorem referencedName_shape (base : String) (args : List TypeExpr) (depth : Nat) :
    (shape ⟨base, args, depth⟩).referencedName = match TypeFamily.of base with
      | .scalar _ _ | .map => none
      | .collection | .stream | .wrapper => (firstShape args).referencedName
      | .named => some base := by
  rw [shape, referencedName_suffixed]
  · cases TypeFamily.of base <;> rfl
  · intro byte
    rw [family_of_isByteName byte]
    rfl

/-- The shape of a type about a model refers to the model. -/
theorem IsAbout.referencedName {t : TypeExpr} {name : String} (about : t.IsAbout name) :
    t.shape.referencedName = some name := by
  induction about with
  | model named => rw [referencedName_shape, named]
  | @inside base name t args depth container about ih =>
    rw [referencedName_shape]
    cases family : TypeFamily.of base with
    | collection | stream | wrapper => exact ih
    | scalar kind format | map | named => rw [family] at container; cases container

mutual

/-- What the shape of a type refers to is the model that the type is about. -/
theorem isAbout_of_referencedName {name : String} : ∀ t : TypeExpr,
    t.shape.referencedName = some name → t.IsAbout name
  | ⟨base, args, depth⟩, refers => by
    rw [referencedName_shape] at refers
    cases family : TypeFamily.of base with
    | scalar kind format | map => rw [family] at refers; cases refers
    | collection | stream | wrapper =>
      rw [family] at refers
      exact isAbout_of_firstReferencedName (by rw [family]; rfl) args refers
    | named =>
      rw [family] at refers
      cases refers
      exact .model family

theorem isAbout_of_firstReferencedName {base name : String} {depth : Nat}
    (container : (TypeFamily.of base).isContainer = true) : ∀ args : List TypeExpr,
    (firstShape args).referencedName = some name → IsAbout ⟨base, args, depth⟩ name
  | [], refers => by cases refers
  | t :: _, refers => .inside container (isAbout_of_referencedName t refers)

end

/-- The shape of a type refers to exactly the model that the type is about. -/
theorem referencedName_eq_some_iff {t : TypeExpr} {name : String} :
    t.shape.referencedName = some name ↔ t.IsAbout name :=
  ⟨isAbout_of_referencedName t, IsAbout.referencedName⟩

/-- What the shape of the first argument refers to is a model. -/
theorem family_of_firstReferencedName {name : String} : ∀ args : List TypeExpr,
    (firstShape args).referencedName = some name → TypeFamily.of name = .named
  | [], refers => by cases refers
  | _ :: _, refers => (referencedName_eq_some_iff.1 refers).named

/-- A type has to be described by a component if and only if its shape refers to a name, and the
name is that of a model, which no table of types has. -/
theorem needsComponent_parse_iff (text : String) :
    ((parse text).needsComponent = true ↔
        ∃ name, (parse text).shape.referencedName = some name) ∧
      ∀ name, (parse text).shape.referencedName = some name →
        TypeFamily.of name = .named ∧ name ∉ scalarTypes.map Prod.fst ∧ name ∉ collectionTypes ∧
          name ∉ mapTypes ∧ name ∉ wrapperTypes ∧ name ∉ streamTypes := by
  constructor
  · rw [needsComponent_eq, Option.isSome_iff_exists]
  · intro name refers
    have named := (referencedName_eq_some_iff.1 refers).named
    exact ⟨named, TypeFamily.of_eq_named_iff.1 named⟩

/-- Users in a list behind a wrapper, with an array suffix on the model. -/
example : (parse "Optional<java.util.List<? extends UserDto[]>>").IsAbout "UserDto" :=
  referencedName_eq_some_iff.1 (by decide +kernel)

end TypeExpr
end ApiCollection.Java
