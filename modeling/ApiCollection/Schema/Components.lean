import ApiCollection.Dto.Basic

/-!
# Components

The components of an interface are the object schemas of the model classes that its types refer
to, directly or through the fields of other model classes. They are collected depth first, each
name once, so that cycles among model classes end.
-/

namespace ApiCollection.Schema

/-- The component names that the types of fields refer to, in order. -/
def references (fields : List Field) : List String :=
  fields.filterMap fun field => field.shape.referencedName

def fieldLists (cache : Dto.Cache) : List (List Field) :=
  cache.entries.map (·.fields) ++
    [Dto.userTemplate, Dto.productTemplate, Dto.orderTemplate, Dto.plainTemplate]

def knownNames (cache : Dto.Cache) : List String := (fieldLists cache).flatMap references

theorem template_mem (name : String) :
    Dto.template name ∈
      [Dto.userTemplate, Dto.productTemplate, Dto.orderTemplate, Dto.plainTemplate] := by
  unfold Dto.template
  split
  · simp
  · split
    · simp
    · split <;> simp

theorem mem_of_get? {cache : Dto.Cache} {name : String} {dto : Dto}
    (h : cache.get? name = some dto) : dto ∈ cache.entries := by
  unfold Dto.Cache.get? at h
  split at h
  · rename_i found heq
    exact Option.some.inj h ▸ List.mem_of_find?_eq_some heq
  · split at h
    · simp at h
    · exact List.mem_of_find?_eq_some h

theorem fields_mem (cache : Dto.Cache) (name : String) :
    cache.fields name ∈ fieldLists cache := by
  unfold Dto.Cache.fields fieldLists
  split
  · rename_i dto h
    exact List.mem_append_left _ (List.mem_map_of_mem (mem_of_get? h))
  · exact List.mem_append_right _ (template_mem name)

/-- What the fields of a name refer to is a known name. -/
theorem references_subset (cache : Dto.Cache) (name : String) :
    references (cache.fields name) ⊆ knownNames cache := fun _ h =>
  List.mem_flatMap.2 ⟨_, fields_mem cache name, h⟩

def unseen (names : List String) (table : Table Schema) : Nat :=
  (names.filter fun name => !table.has name).length

theorem unseen_append_lt {names : List String} {table : Table Schema} {name : String}
    (hn : name ∈ names) (ht : table.has name = false) (schema : Schema) :
    unseen names (table ++ [(name, schema)]) < unseen names table := by
  have split : names.filter (fun n => !Table.has (table ++ [(name, schema)]) n) =
      (names.filter fun n => !table.has n).filter (fun n => !decide (n = name)) := by
    rw [List.filter_filter]
    congr 1
    funext n
    by_cases h : n = name
    · simp [Table.has, h]
    · have hne : (name == n) = false := by simpa using fun e => h e.symm
      simp [Table.has, hne, h]
  rw [unseen, unseen, split]
  exact List.length_filter_lt_length_iff_exists.2 ⟨name, by simp [hn, ht], by simp⟩

/-- Registers the names that wait and everything they lead to. `Void` has no component, and a name
that is registered is passed over. -/
def register (cache : Dto.Cache) (names : List String) (closed : knownNames cache ⊆ names)
    (waiting : List { name : String // name ∈ names }) (table : Table Schema) : Table Schema :=
  match waiting with
  | [] => table
  | name :: rest =>
    if name.val = "Void" then register cache names closed rest table
    else if _h : table.has name.val then register cache names closed rest table
    else
      let next := (references (cache.fields name.val)).attach.map fun found =>
        (⟨found.val, closed (references_subset cache name.val found.property)⟩ :
          { name : String // name ∈ names })
      register cache names closed (next ++ rest)
        (table ++ [(name.val, cache.objectSchema name.val)])
termination_by (unseen names table, waiting.length)
decreasing_by
  · exact Prod.Lex.right _ (by simp)
  · exact Prod.Lex.right _ (by simp)
  · exact Prod.Lex.left _ _ (unseen_append_lt name.property (by simpa using _h) _)

/-- The table with the component of a name and those that it leads to. -/
def addComponent (cache : Dto.Cache) (table : Table Schema) (name : String) : Table Schema :=
  register cache (name :: knownNames cache) (fun _ h => List.mem_cons_of_mem _ h)
    [⟨name, List.mem_cons_self⟩] table

def addReferenced (cache : Dto.Cache) (table : Table Schema) (shape : Descriptor) :
    Table Schema :=
  match shape.referencedName with
  | some name => addComponent cache table name
  | none => table

/-- The components that some shapes refer to, in the order in which they are met. -/
def components (cache : Dto.Cache) (shapes : List Descriptor) : Table Schema :=
  shapes.foldl (addReferenced cache) []

end ApiCollection.Schema
