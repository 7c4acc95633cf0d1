import ApiCollection.Proofs.ComponentClosure

/-!
# Reachable components

Components are generated call by call. Each call registers the name that it asks for and, depth
first, the names that the fields of a new name lead to; this ends on every cache, also when model
classes refer to each other in circles. What is registered is exactly what can be reached from the
names asked for.
-/

namespace ApiCollection

namespace Java.TypeExpr

theorem referencedName_suffixed (base : String) (shape : Schema.Descriptor) (depth : Nat)
    (scalar : isByteName base = true → shape.referencedName = none) :
    (suffixed base shape depth).referencedName = shape.referencedName := by
  induction depth with
  | zero => rfl
  | succ depth ih =>
    cases depth with
    | zero =>
      rw [suffixed]
      split
      · rename_i byte
        exact (scalar byte).symm
      · rfl
    | succ depth => exact ih

/-- A byte type is a scalar. -/
theorem family_of_isByteName {base : String} (h : isByteName base = true) :
    TypeFamily.of base = .scalar .integer none := by
  rw [isByteName, Bool.or_eq_true, beq_iff_eq, beq_iff_eq] at h
  obtain rfl | rfl := h <;> decide

mutual

/-- A type has to be described by a component exactly when its shape refers to one. -/
theorem needsComponent_eq (t : TypeExpr) : t.needsComponent = t.shape.referencedName.isSome := by
  obtain ⟨base, args, depth⟩ := t
  have first := firstNeedsComponent_eq args
  rw [needsComponent, shape, referencedName_suffixed]
  · cases TypeFamily.of base with
    | scalar kind format => rfl
    | map => rfl
    | collection => exact first
    | stream => exact first
    | wrapper => exact first
    | named => rfl
  · intro byte
    rw [family_of_isByteName byte]
    rfl

theorem firstNeedsComponent_eq (args : List TypeExpr) :
    firstNeedsComponent args = (firstShape args).referencedName.isSome := by
  cases args with
  | nil => rfl
  | cons t args => exact needsComponent_eq t

end

end Java.TypeExpr

namespace Schema

/-- The names that the fields of a name lead to: fields that need no component are passed over. -/
def dependencies (cache : Dto.Cache) (name : String) : List String :=
  ((cache.fields name).filter Field.needsComponent).filterMap fun field =>
    field.shape.referencedName

theorem dependencies_eq (cache : Dto.Cache) (name : String) :
    dependencies cache name = references (cache.fields name) := by
  rw [dependencies, references, List.filterMap_filter]
  congr 1
  funext field
  have needs : field.needsComponent = field.shape.referencedName.isSome :=
    Java.TypeExpr.needsComponent_eq _
  rw [needs]
  cases field.shape.referencedName <;> rfl

inductive Call where
  /-- Asks for the schema of a shape. -/
  | shape (descriptor : Descriptor)
  /-- Asks for the schema of a type as it is written. -/
  | type (text : String)
  /-- Asks for the component of a name. -/
  | component (name : String)

def Call.name? : Call → Option String
  | .shape descriptor => descriptor.referencedName
  | .type text => (Java.TypeExpr.parse text).shape.referencedName
  | .component name => some name

def Call.run (cache : Dto.Cache) (table : Table Schema) : Call → Table Schema
  | .shape descriptor => addReferenced cache table descriptor
  | .type text => addReferenced cache table (Java.TypeExpr.parse text).shape
  | .component name => addComponent cache table name

def generated (cache : Dto.Cache) (calls : List Call) : Table Schema :=
  calls.foldl (Call.run cache) []

def requested (calls : List Call) : List String := calls.filterMap Call.name?

theorem Call.run_eq (cache : Dto.Cache) (table : Table Schema) (call : Call) :
    call.run cache table = call.name?.elim table (addComponent cache table) := by
  cases call with
  | component name => rfl
  | shape descriptor =>
    rw [run, addReferenced, name?]
    cases descriptor.referencedName <;> rfl
  | type text =>
    rw [run, addReferenced, name?]
    cases (Java.TypeExpr.parse text).shape.referencedName <;> rfl

/-- Components of shapes are generated by the calls for these shapes. -/
theorem components_eq_generated (cache : Dto.Cache) (shapes : List Descriptor) :
    components cache shapes = generated cache (shapes.map .shape) := by
  rw [generated, List.foldl_map]
  rfl

/-- Names are registered one after the other, and what the fields of a new name lead to before the
next one. A name that is registered, if only just before its fields, is passed over, and so is
`Void`. Every registration is finite. -/
inductive Registers (cache : Dto.Cache) : Table Schema → List String → Table Schema → Prop
  | done {table : Table Schema} : Registers cache table [] table
  | skip {table result : Table Schema} {name : String} {rest : List String}
      (passed : name = "Void" ∨ table.has name = true) (later : Registers cache table rest result) :
      Registers cache table (name :: rest) result
  | enter {table inner result : Table Schema} {name : String} {rest : List String}
      (notVoid : name ≠ "Void") (new : table.has name = false)
      (fields : Registers cache (table ++ [(name, cache.objectSchema name)])
        (dependencies cache name) inner)
      (later : Registers cache inner rest result) : Registers cache table (name :: rest) result

namespace Registers

variable {cache : Dto.Cache} {table inner result other : Table Schema} {names rest : List String}

private theorem append (h : Registers cache table names inner)
    (h' : Registers cache inner rest result) :
    Registers cache table (names ++ rest) result := by
  induction h with
  | done => exact h'
  | skip passed _ ih => exact .skip passed (ih h')
  | enter notVoid new fields _ _ ih => exact .enter notVoid new fields (ih h')

private theorem split (h : Registers cache table (names ++ rest) result) :
    ∃ inner, Registers cache table names inner ∧ Registers cache inner rest result := by
  induction names generalizing table with
  | nil => exact ⟨table, .done, h⟩
  | cons name names ih =>
    cases h with
    | skip passed later =>
      obtain ⟨inner, front, behind⟩ := ih later
      exact ⟨inner, .skip passed front, behind⟩
    | enter notVoid new fields later =>
      obtain ⟨inner, front, behind⟩ := ih later
      exact ⟨inner, .enter notVoid new fields front, behind⟩

/-- There is one result at most. -/
theorem unique (h : Registers cache table names result) (h' : Registers cache table names other) :
    result = other := by
  induction h generalizing other with
  | done =>
    cases h'
    rfl
  | skip passed _ ih =>
    cases h' with
    | skip _ later => exact ih later
    | enter notVoid new => simp [notVoid, new] at passed
  | enter notVoid new _ _ ihFields ih =>
    cases h' with
    | skip passed => simp [notVoid, new] at passed
    | enter _ _ fields later =>
      obtain rfl := ihFields fields
      exact ih later

/-- Keys stay distinct. -/
theorem nodup (h : Registers cache table names result) (distinct : table.keys.Nodup) :
    result.keys.Nodup := by
  induction h with
  | done => exact distinct
  | skip _ _ ih => exact ih distinct
  | @enter table _ _ name _ _ new _ _ ihFields ih =>
    refine ih (ihFields ?_)
    have absent : name ∉ table.keys := by rw [Table.mem_keys_iff, new]; exact Bool.false_ne_true
    rw [Table.keys, List.map_append, ← Table.keys, List.nodup_append']
    exact ⟨distinct, List.nodup_singleton name, List.disjoint_singleton.2 absent⟩

end Registers

/-- The names that can be reached from some names through the fields of model classes other than
`Void`. -/
inductive Reachable (cache : Dto.Cache) (names : List String) : String → Prop
  | asked {name : String} (member : name ∈ names) (notVoid : name ≠ "Void") :
      Reachable cache names name
  | field {owner name : String} {field : Field} (reached : Reachable cache names owner)
      (member : field ∈ cache.fields owner) (refers : field.shape.referencedName = some name)
      (notVoid : name ≠ "Void") : Reachable cache names name

section

variable {cache : Dto.Cache}

/-- The registration of waiting names is finite, and it has the result of the walk over them. -/
theorem registers_register (names : List String) (known : knownNames cache ⊆ names)
    (waiting : List { name : String // name ∈ names }) (table : Table Schema) :
    Registers cache table (waiting.map Subtype.val) (register cache names known waiting table) := by
  fun_induction register cache names known waiting table with
  | case1 table => exact .done
  | case2 table name rest isVoid ih => exact .skip (.inl isVoid) ih
  | case3 table name rest notVoid has ih => exact .skip (.inr has) ih
  | case4 table name rest notVoid new next ih =>
    have values : next.map Subtype.val = dependencies cache name.val := by
      simp [next, Function.comp_def, dependencies_eq]
    rw [List.map_append, values] at ih
    obtain ⟨inner, fields, later⟩ := ih.split
    exact .enter notVoid (Bool.eq_false_iff.2 new) fields later

/-- The registration of the names that some calls ask for is finite. -/
theorem registers_foldl (calls : List Call) (table : Table Schema) :
    Registers cache table (requested calls) (calls.foldl (Call.run cache) table) := by
  induction calls generalizing table with
  | nil => exact .done
  | cons call calls ih =>
    rw [requested, List.foldl_cons, Call.run_eq]
    cases asked : call.name? with
    | none =>
      rw [List.filterMap_cons_none asked]
      exact ih table
    | some name =>
      rw [List.filterMap_cons_some asked]
      exact Registers.append (registers_register _ _ [⟨name, List.mem_cons_self⟩] table) (ih _)

/-- Nothing is registered but what can be reached. -/
theorem Registers.reachable {roots names : List String} {table result : Table Schema}
    (h : Registers cache table names result)
    (old : ∀ name, table.has name = true → Reachable cache roots name)
    (waiting : ∀ name ∈ names, name ≠ "Void" → Reachable cache roots name) :
    ∀ name, result.has name = true → Reachable cache roots name := by
  induction h with
  | done => exact old
  | skip _ _ ih => exact ih old fun name member => waiting name (List.mem_cons_of_mem _ member)
  | @enter table _ _ name rest notVoid _ _ _ ihFields ih =>
    have here := waiting name List.mem_cons_self notVoid
    apply ih
    · apply ihFields
      · intro other has
        rw [Table.has_append] at has
        obtain earlier | last := has
        · exact old other earlier
        · obtain rfl : name = other := by simpa [Table.has] using last
          exact here
      · intro other member notVoid
        rw [dependencies_eq] at member
        obtain ⟨field, member, refers⟩ := List.mem_filterMap.1 member
        exact .field here member refers notVoid
    · exact fun other member => waiting other (List.mem_cons_of_mem _ member)

/-- The generated components have the schemas of their names, and lack nothing that their fields
refer to or that was asked for. -/
theorem closed_generated (calls : List Call) : Closed cache (generated cache calls) ∧
    ∀ name ∈ requested calls, name ≠ "Void" → (generated cache calls).has name = true := by
  have fold (table : Table Schema) (h : Closed cache table) :
      Closed cache (calls.foldl (Call.run cache) table) ∧
        (∀ name, table.has name = true → (calls.foldl (Call.run cache) table).has name = true) ∧
        ∀ name ∈ requested calls, name ≠ "Void" →
          (calls.foldl (Call.run cache) table).has name = true := by
    induction calls generalizing table with
    | nil => exact ⟨h, fun _ has => has, by simp [requested]⟩
    | cons call calls ih =>
      rw [List.foldl_cons, Call.run_eq]
      cases asked : call.name? with
      | none =>
        rw [requested, List.filterMap_cons_none asked]
        exact ih table h
      | some name =>
        obtain ⟨closed, kept, added⟩ := register_closed (name :: knownNames cache)
          (fun _ member => List.mem_cons_of_mem _ member) [⟨name, List.mem_cons_self⟩] table
          (h.registering _)
        obtain ⟨closed, keptLater, addedLater⟩ := ih _ closed
        rw [requested, List.filterMap_cons_some asked, List.forall_mem_cons]
        refine ⟨closed, fun n has => keptLater n (kept n has), ?_, addedLater⟩
        exact fun notVoid => keptLater name (added name List.mem_cons_self notVoid)
  have empty : Closed cache [] := ⟨rfl, by simp, by simp [Table.has]⟩
  obtain ⟨closed, -, added⟩ := fold [] empty
  exact ⟨closed, added⟩

private theorem has_generated_iff (calls : List Call) (name : String) :
    (generated cache calls).has name = true ↔ Reachable cache (requested calls) name := by
  obtain ⟨closed, added⟩ := @closed_generated cache calls
  constructor
  · have waiting : ∀ name ∈ requested calls, name ≠ "Void" →
        Reachable cache (requested calls) name := fun _ => .asked
    exact (registers_foldl calls []).reachable (by simp [Table.has]) waiting name
  · intro reached
    induction reached with
    | asked member notVoid => exact added _ member notVoid
    | @field owner name field _ member refers notVoid ih =>
      exact closed.closed owner ih name (List.mem_filterMap.2 ⟨field, member, refers⟩) notVoid

end

/-- Whatever the cache, a sequence of calls registers the names asked for in finitely many steps and
with one result. Its names are those that can be reached, each once with the schema of its fields,
so two generators agree on what both have. -/
theorem generated_iff_reachable (cache : Dto.Cache) (calls : List Call) :
    (∀ result, Registers cache [] (requested calls) result ↔ result = generated cache calls) ∧
      (generated cache calls).keys.Nodup ∧
      (∀ name, name ∈ (generated cache calls).keys ↔ Reachable cache (requested calls) name) ∧
      (∀ name ∈ (generated cache calls).keys,
        (generated cache calls).get? name = some (cache.objectSchema name)) ∧
      ∀ others : List Call, ∀ name ∈ (generated cache calls).keys,
        name ∈ (generated cache others).keys →
          (generated cache calls).get? name = (generated cache others).get? name := by
  have nodup (calls : List Call) : (generated cache calls).keys.Nodup :=
    (registers_foldl calls []).nodup List.nodup_nil
  have schema (calls : List Call) : ∀ name ∈ (generated cache calls).keys,
      (generated cache calls).get? name = some (cache.objectSchema name) := by
    intro name member
    obtain ⟨⟨name, value⟩, entry, rfl⟩ := List.mem_map.1 member
    obtain rfl : value = cache.objectSchema name := (closed_generated calls).1.schema _ entry
    exact Table.get?_eq_some_of_mem (nodup calls) entry
  refine ⟨?_, nodup calls, ?_, schema calls, ?_⟩
  · intro result
    constructor
    · exact fun registered => registered.unique (registers_foldl calls [])
    · rintro rfl
      exact registers_foldl calls []
  · intro name
    rw [Table.mem_keys_iff, has_generated_iff]
  · intro others name member member'
    rw [schema calls name member, schema others name member']

end Schema
end ApiCollection
