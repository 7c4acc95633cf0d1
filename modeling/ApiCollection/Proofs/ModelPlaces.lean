import ApiCollection.Dto.Source
import ApiCollection.Api.Basic
import ApiCollection.Proofs.ComponentClosure

/-!
# Where model classes were read from

A cache remembers the file of each class. What is extracted with a cache depends on the names and
fields of its classes only.
-/

namespace ApiCollection

namespace Dto

def declaration (dto : Dto) : String × List Field := (dto.name, dto.fields)

def Cache.Alike (cache other : Cache) : Prop :=
  cache.entries.map declaration = other.entries.map declaration

variable {cache other : Cache}

namespace Cache.Alike

variable (alike : cache.Alike other)
include alike

private theorem find?_eq (p : String → Bool) :
    (cache.entries.find? fun dto => p dto.name).map declaration =
    (other.entries.find? fun dto => p dto.name).map declaration := by
  have found (c : Cache) : (c.entries.find? fun dto => p dto.name).map declaration =
      (c.entries.map declaration).find? fun d => p d.1 := by
    rw [List.find?_map]
    rfl
  rw [found, found, alike]

theorem get?_eq (name : String) :
    (cache.get? name).map declaration = (other.get? name).map declaration := by
  rw [get?_eq_or, get?_eq_or, Option.map_or, Option.map_or, alike.find?_eq (· == name)]
  split
  · rfl
  · rw [alike.find?_eq fun n => Text.startsWith (stem name) n.toList]

theorem fields_eq : cache.fields = other.fields := by
  funext name
  have same := congrArg (Option.map Prod.snd) (alike.get?_eq name)
  simp only [Option.map_map] at same
  unfold fields
  cases found : cache.get? name <;> cases found' : other.get? name <;> simp_all [declaration]

private theorem objectSchema_eq : cache.objectSchema = other.objectSchema := by
  funext name
  rw [objectSchema, objectSchema, alike.fields_eq]

private theorem knownNames_eq : Schema.knownNames cache = Schema.knownNames other := by
  have fields (c : Cache) :
      c.entries.map (·.fields) = (c.entries.map declaration).map Prod.snd := by
    rw [List.map_map]
    rfl
  rw [Schema.knownNames, Schema.knownNames, Schema.fieldLists, Schema.fieldLists, fields, fields,
    alike]

private theorem register_eq (names : List String) (known : Schema.knownNames cache ⊆ names)
    (known' : Schema.knownNames other ⊆ names)
    (waiting : List { name : String // name ∈ names }) (table : Table Schema) :
    Schema.register cache names known waiting table =
      Schema.register other names known' waiting table := by
  fun_induction Schema.register cache names known waiting table with
  | case1 table => rw [Schema.register]
  | case2 table name rest isVoid ih =>
    conv_rhs => rw [Schema.register]
    rw [ih, if_pos isVoid]
  | case3 table name rest notVoid has ih =>
    conv_rhs => rw [Schema.register]
    rw [ih, if_neg notVoid, dif_pos has]
  | case4 table name rest notVoid new next ih =>
    conv_rhs => rw [Schema.register]
    rw [ih, if_neg notVoid, dif_neg new, alike.objectSchema_eq]
    congr 2
    refine List.map_injective_iff.2 Subtype.val_injective ?_
    simp [next, Function.comp_def, alike.fields_eq]

private theorem addComponent_eq : Schema.addComponent cache = Schema.addComponent other := by
  have general (names : List String) (known : Schema.knownNames cache ⊆ names)
      (waiting : List { name : String // name ∈ names }) (table : Table Schema) :
      ∀ names' (known' : Schema.knownNames other ⊆ names')
        (waiting' : List { name : String // name ∈ names' }), names = names' →
        waiting.map Subtype.val = waiting'.map Subtype.val →
        Schema.register cache names known waiting table =
          Schema.register other names' known' waiting' table := by
    rintro _ known' waiting' rfl same
    rw [List.map_injective_iff.2 Subtype.val_injective same]
    exact alike.register_eq names known known' waiting' table
  funext table name
  refine general _ _ _ table _ _ _ ?_ rfl
  rw [alike.knownNames_eq]

private theorem components_eq : Schema.components cache = Schema.components other := by
  funext shapes
  rw [Schema.components, Schema.components]
  congr 1
  funext table shape
  rw [Schema.addReferenced, Schema.addReferenced, alike.addComponent_eq]

private theorem ofName_eq : Example.ofName cache = Example.ofName other := by
  funext levels
  induction levels with
  | zero => rfl
  | succ levels ih =>
    funext name
    have found := congrArg (Option.map Prod.snd) (alike.get?_eq name)
    simp only [Option.map_map] at found
    rw [Example.ofName, Example.ofName, ih]
    cases here : cache.get? name <;> cases there : other.get? name <;>
      simp_all [declaration]

private theorem draw_eq (listSize : Nat) (recipe : Recipe) :
    recipe.draw cache listSize = recipe.draw other listSize := by
  cases recipe <;>
    simp only [Recipe.draw, Example.forField, Example.forType, Example.forRequest,
      Example.forResponse, Example.forResponses, Example.dtoMembers, alike.ofName_eq,
      alike.fields_eq]

/-- What is extracted from a source text does not tell where the model classes were read. -/
theorem extract_eq (unit : SourceUnit) (seed : UInt64) (listSize : Nat) :
    unit.extract cache seed listSize = unit.extract other seed listSize := by
  have draw? : Recipe.draw? cache listSize = Recipe.draw? other listSize := by
    funext recipe
    cases recipe with
    | none => rfl
    | some recipe => rw [Recipe.draw?, Recipe.draw?, alike.draw_eq]
  have input : Draft.drawInput cache listSize = Draft.drawInput other listSize := by
    funext input
    cases input <;> rw [Draft.drawInput, Draft.drawInput, draw?]
  have response : Draft.drawResponse cache listSize = Draft.drawResponse other listSize := by
    funext response
    rw [Draft.drawResponse, Draft.drawResponse, draw?]
  have draft : Draft.draw cache listSize = Draft.draw other listSize := by
    funext draft
    rw [Draft.draw, Draft.draw, input, response]
  rw [SourceUnit.extract, SourceUnit.extract, draft, alike.components_eq]

end Cache.Alike

private theorem Cache.Alike.insert (alike : cache.Alike other) {dto dto' : Dto}
    (same : dto.declaration = dto'.declaration) : (cache.insert dto).Alike (other.insert dto') := by
  have name : dto.name = dto'.name := congrArg Prod.fst same
  have has (c : Cache) (n : String) : c.has n = (c.entries.map declaration).any (·.1 == n) := by
    rw [List.any_map]
    rfl
  have present : cache.has dto.name = other.has dto'.name := by
    rw [has, has, alike, name]
  rw [Cache.insert_eq, Cache.insert_eq, present]
  split
  · exact alike
  · rw [Alike, List.map_append, List.map_append, alike, List.map_singleton, List.map_singleton,
      same]

theorem alike_ofList {dtos dtos' : List Dto} (same : dtos.map declaration = dtos'.map declaration) :
    (Cache.ofList dtos).Alike (.ofList dtos') := by
  have fold (cache other : Cache) (alike : cache.Alike other) :
      (dtos.foldl Cache.insert cache).Alike (dtos'.foldl Cache.insert other) := by
    induction dtos generalizing dtos' cache other with
    | nil =>
      rw [List.map_eq_nil_iff.1 same.symm]
      exact alike
    | cons dto dtos ih =>
      obtain ⟨dto', rest, rfl, first, later⟩ := List.map_eq_cons_iff.1 same.symm
      exact ih later.symm _ _ (alike.insert first.symm)
  exact fold {} {} rfl

/-- The file of a source text has no part in what the text declares. -/
theorem declaration_ofSource? (source : List Char) (path path' : Option String) :
    (ofSource? source path).map declaration = (ofSource? source path').map declaration := by
  unfold ofSource?
  cases Text.find? (fun _ cs => declaredName? cs) source <;> rfl

end Dto

end ApiCollection
