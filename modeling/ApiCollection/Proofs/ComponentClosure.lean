import ApiCollection.Proofs.TableEntries
import ApiCollection.Schema.Components

/-!
# Components lead to components

Registering a name registers everything that it leads to, except for `Void`, which has no
component. A table that holds what its own entries refer to is closed; registering keeps it so, and
several closed tables make a closed one.
-/

namespace ApiCollection

namespace Schema

variable {cache : Dto.Cache}

/-- A table of components that lacks nothing its entries refer to, except for `Void`. -/
structure Closed (cache : Dto.Cache) (table : Table Schema) : Prop where
  void : table.has "Void" = false
  schema : ∀ e ∈ table, e.2 = cache.objectSchema e.1
  closed : ∀ name, table.has name = true → ∀ found ∈ references (cache.fields name),
    found ≠ "Void" → table.has found = true

/-- A table whose entries may refer to names that wait. -/
structure Registering (cache : Dto.Cache) (waiting : List String) (table : Table Schema) :
    Prop where
  void : table.has "Void" = false
  schema : ∀ e ∈ table, e.2 = cache.objectSchema e.1
  closed : ∀ name, table.has name = true → ∀ found ∈ references (cache.fields name),
    found ≠ "Void" → table.has found = true ∨ found ∈ waiting

theorem Closed.registering {table : Table Schema} (h : Closed cache table) (waiting : List String) :
    Registering cache waiting table where
  void := h.void
  schema := h.schema
  closed := fun name has found member ne => .inl (h.closed name has found member ne)

namespace Registering

variable {name : String} {rest : List String} {table : Table Schema}

/-- A name that is passed over no longer waits. -/
theorem skip (h : Registering cache (name :: rest) table)
    (passed : name = "Void" ∨ table.has name = true) : Registering cache rest table := by
  refine ⟨h.void, h.schema, ?_⟩
  intro n has found member ne
  rcases h.closed n has found member ne with registered | waits
  · exact .inl registered
  · rcases List.mem_cons.1 waits with rfl | waits
    · exact .inl (passed.resolve_left ne)
    · exact .inr waits

/-- A name that is registered makes way for what it refers to. -/
theorem push (h : Registering cache (name :: rest) table) (ne : name ≠ "Void") :
    Registering cache (references (cache.fields name) ++ rest)
      (table ++ [(name, cache.objectSchema name)]) := by
  have new : ∀ n, Table.has [(name, cache.objectSchema name)] n = true ↔ n = name := by
    intro n
    simp [Table.has, @eq_comm _ n]
  refine ⟨?_, ?_, ?_⟩
  · rw [← Bool.not_eq_true, Table.has_append, new, not_or]
    exact ⟨ne_true_of_eq_false h.void, ne.symm⟩
  · intro e member
    rcases List.mem_append.1 member with old | last
    · exact h.schema e old
    · rw [List.mem_singleton.1 last]
  · intro n has found member notVoid
    rw [Table.has_append, new] at has ⊢
    rw [List.mem_append]
    rcases has with old | rfl
    · rcases h.closed n old found member notVoid with registered | waits
      · exact .inl (.inl registered)
      · rcases List.mem_cons.1 waits with rfl | waits
        · exact .inl (.inr rfl)
        · exact .inr (.inr waits)
    · exact .inr (.inl member)

end Registering

/-- Registering ends with a closed table that has the old entries and everything that waited. -/
theorem register_closed (names : List String) (known : knownNames cache ⊆ names)
    (waiting : List { name : String // name ∈ names }) (table : Table Schema)
    (h : Registering cache (waiting.map Subtype.val) table) :
    Closed cache (register cache names known waiting table) ∧
      (∀ name, table.has name = true → (register cache names known waiting table).has name = true) ∧
      ∀ name ∈ waiting.map Subtype.val, name ≠ "Void" →
        (register cache names known waiting table).has name = true := by
  fun_induction register cache names known waiting table with
  | case1 table =>
    refine ⟨⟨h.void, h.schema, ?_⟩, fun _ has => has, by simp⟩
    intro name has found member ne
    exact (h.closed name has found member ne).resolve_right List.not_mem_nil
  | case2 table name rest isVoid ih =>
    obtain ⟨closed, kept, waited⟩ := ih (h.skip (.inl isVoid))
    refine ⟨closed, kept, ?_⟩
    rw [List.map_cons, List.forall_mem_cons]
    exact ⟨fun ne => absurd isVoid ne, waited⟩
  | case3 table name rest notVoid has ih =>
    obtain ⟨closed, kept, waited⟩ := ih (h.skip (.inr has))
    refine ⟨closed, kept, ?_⟩
    rw [List.map_cons, List.forall_mem_cons]
    exact ⟨fun _ => kept _ has, waited⟩
  | case4 table name rest notVoid new next ih =>
    have values : (next ++ rest).map Subtype.val =
        references (cache.fields name.val) ++ rest.map Subtype.val := by
      simp [next, Function.comp_def]
    rw [values] at ih
    obtain ⟨closed, kept, waited⟩ := ih (h.push notVoid)
    refine ⟨closed, fun n has => kept n (Table.has_append.2 (.inl has)), ?_⟩
    rw [List.map_cons, List.forall_mem_cons]
    refine ⟨fun _ => kept _ (Table.has_append.2 (.inr (by simp [Table.has]))), ?_⟩
    exact fun n member => waited n (List.mem_append_right _ member)

/-- Adding what a shape refers to keeps a table closed and keeps its entries. -/
theorem Closed.addReferenced {table : Table Schema} (h : Closed cache table) (shape : Descriptor) :
    Closed cache (addReferenced cache table shape) ∧
      (∀ name, table.has name = true → (Schema.addReferenced cache table shape).has name = true) ∧
      ∀ name, shape.referencedName = some name → name ≠ "Void" →
        (Schema.addReferenced cache table shape).has name = true := by
  rw [Schema.addReferenced]
  cases shape.referencedName with
  | none => exact ⟨h, fun _ has => has, nofun⟩
  | some name =>
    obtain ⟨closed, kept, waited⟩ := register_closed (name :: knownNames cache)
      (fun _ member => List.mem_cons_of_mem _ member) [⟨name, List.mem_cons_self⟩] table
      (h.registering _)
    refine ⟨closed, kept, ?_⟩
    rintro _ ⟨⟩
    exact waited name List.mem_cons_self

/-- The components of some shapes are closed and have what the shapes refer to. -/
theorem closed_components (shapes : List Descriptor) : Closed cache (components cache shapes) ∧
    ∀ shape ∈ shapes, ∀ name, shape.referencedName = some name → name ≠ "Void" →
      (components cache shapes).has name = true := by
  have fold (table : Table Schema) (h : Closed cache table) :
      Closed cache (shapes.foldl (addReferenced cache) table) ∧
        (∀ name, table.has name = true →
          (shapes.foldl (addReferenced cache) table).has name = true) ∧
        ∀ shape ∈ shapes, ∀ name, shape.referencedName = some name → name ≠ "Void" →
          (shapes.foldl (addReferenced cache) table).has name = true := by
    induction shapes generalizing table with
    | nil => exact ⟨h, fun _ has => has, by simp⟩
    | cons shape shapes ih =>
      obtain ⟨closed, kept, added⟩ := h.addReferenced shape
      obtain ⟨closed, keptLater, addedLater⟩ := ih _ closed
      refine ⟨closed, fun name has => keptLater name (kept name has), ?_⟩
      rw [List.forall_mem_cons]
      exact ⟨fun name refers ne => keptLater name (added name refers ne), addedLater⟩
  have empty : Closed cache [] := ⟨rfl, by simp, by simp [Table.has]⟩
  obtain ⟨closed, -, added⟩ := fold [] empty
  exact ⟨closed, added⟩

/-- New entries of a closed table leave a closed table closed. -/
theorem Closed.union {table new : Table Schema} (h : Closed cache table) (h' : Closed cache new) :
    Closed cache (new.foldl (fun t e => t.insertNew e.1 e.2) table) ∧
      ∀ name, (new.foldl (fun t e => t.insertNew e.1 e.2) table).has name = true ↔
        table.has name = true ∨ new.has name = true := by
  have fold (new : Table Schema) (t : Table Schema) :
      (∀ name, (new.foldl (fun t e => t.insertNew e.1 e.2) t).has name = true ↔
        t.has name = true ∨ new.has name = true) ∧
        ∀ e ∈ new.foldl (fun t e => t.insertNew e.1 e.2) t, e ∈ t ∨ e ∈ new := by
    induction new generalizing t with
    | nil => simp [Table.has]
    | cons first new ih =>
      obtain ⟨keys, entries⟩ := ih (t.insertNew first.1 first.2)
      constructor
      · intro name
        rw [List.foldl_cons, keys, Table.has_insertNew, or_assoc]
        simp [Table.has]
      · intro e member
        rcases entries e member with old | later
        · rcases Table.mem_insertNew old with old | ⟨key, value⟩
          · exact .inl old
          · exact .inr (List.mem_cons.2 (.inl (Prod.ext key value)))
        · exact .inr (List.mem_cons_of_mem _ later)
  obtain ⟨keys, entries⟩ := fold new table
  refine ⟨⟨?_, ?_, ?_⟩, keys⟩
  · rw [← Bool.not_eq_true, keys, h.void, h'.void]
    simp
  · intro e member
    exact (entries e member).elim (h.schema e) (h'.schema e)
  · intro name has found member ne
    rw [keys] at has ⊢
    exact has.imp (h.closed name · found member ne) (h'.closed name · found member ne)

end Schema
end ApiCollection
