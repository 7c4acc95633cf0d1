import ApiCollection.Proofs.ExampleShapes
import ApiCollection.Proofs.TableEntries

/-!
# Examples of one model class

What is sent and what is answered for a model class are its example up to the members that a server
assigns: they are left out of the one, and an identity and a time of creation are put behind the
other where they are missing.
-/

namespace ApiCollection.Example

open ApiCollection.Random

/-- The names of the members that an object has because of its name. -/
def identityNames (name : String) : List String :=
  if Dto.mentions name "user" then ["id", "name", "email"] else []

/-- What every later draw has does not depend on the draw in front of it. -/
theorem Yields.behind {α β : Type} {p : α → Prop} (draw : Draw β) {f : β → Draw α}
    (h : ∀ b, Yields (f b) p) : Yields (draw >>= f) p := fun _ => h _ _

private theorem yields_identity (name : String) :
    Yields (identity name) fun members => members.keys = identityNames name := by
  rw [identity, identityNames]
  split
  · exact .behind _ fun id => .behind _ fun fullName => .behind _ fun email => .pure rfl
  · exact .pure rfl

/-- Fields are added in the order in which their names are first met. -/
theorem yields_addFields (named : String → Draw Json) (fields : List Field) {members : Json.Members}
    {names : List String} (h : members.keys = names.eraseDups) :
    Yields (addFields named members fields) fun all =>
      all.keys = (names ++ fields.map (·.name)).eraseDups := by
  induction fields generalizing members names with
  | nil =>
    rw [List.map_nil, List.append_nil]
    exact .pure h
  | cons field fields ih =>
    have known : members.has field.name = true ↔ field.name ∈ names := by
      rw [← Table.mem_keys_iff, h, List.mem_eraseDups]
    rw [addFields, List.map_cons, ← List.singleton_append, ← List.append_assoc]
    split
    · rename_i has
      refine ih ?_
      rw [h, Table.eraseDups_concat, if_pos (known.1 has)]
    · rename_i new
      refine .behind _ fun value => ih ?_
      rw [Table.keys, List.map_append, ← Table.keys, h, Table.eraseDups_concat,
        if_neg fun member => new (known.2 member)]
      rfl

private theorem yields_dtoMembers (cache : Dto.Cache) (name : String) :
    Yields (dtoMembers cache name) fun members =>
      members.keys = (identityNames name ++ (cache.fields name).map (·.name)).eraseDups := by
  refine (yields_identity name).bind fun members keys => yields_addFields _ _ ?_
  rw [keys, identityNames]
  split <;> rfl

/-- A member that is missing is put behind the others with a value that is drawn for it. -/
theorem yields_addMissing (members : Json.Members) (key : String) {value : Draw Json}
    {p : Json → Prop} (h : Yields value p) :
    Yields (addMissing members key value) fun all => ∃ added,
      all = members ++ added ∧ Table.keys added = [key].filter (fun k => k ∉ members.keys) ∧
        ∀ m ∈ added, m.1 = key ∧ p m.2 := by
  rw [addMissing]
  split
  · rename_i has
    rw [← Table.mem_keys_iff] at has
    refine .pure ⟨[], (List.append_nil _).symm, ?_, nofun⟩
    simp only [List.filter_cons, has, not_true, decide_false, Bool.false_eq_true, if_false]
    rfl
  · rename_i new
    rw [← Table.mem_keys_iff] at new
    refine h.bind fun v hv => .pure ⟨[(key, v)], rfl, ?_, by simpa using hv⟩
    simp only [List.filter_cons, new, not_false_eq_true, decide_true, if_true]
    rfl

/-- What is put behind the members of an example before it is answered. -/
structure Completes (members added : Json.Members) : Prop where
  keys : added.keys = ["id", "createdAt"].filter fun key => key ∉ members.keys
  id : ∀ v, ("id", v) ∈ added → v.isOfKind .integer = true
  createdAt : ∀ v, ("createdAt", v) ∈ added → v.isOfKind .string = true

private theorem yields_completed (members : Json.Members) :
    Yields (addMissing members "id" (number 1 1000) >>= fun all =>
        addMissing all "createdAt" (.string <$> timestamp)) fun all =>
      ∃ added, all = members ++ added ∧ Completes members added := by
  have integer : Yields (number 1 1000) fun v => v.isOfKind .integer = true := by
    rw [number]
    exact .behind _ fun n => .pure rfl
  have text : Yields (Json.string <$> timestamp) fun v => v.isOfKind .string = true :=
    .map fun text => rfl
  refine (yields_addMissing members "id" integer).bind ?_
  rintro _ ⟨ids, rfl, idKeys, isInteger⟩
  intro s
  obtain ⟨times, all, timeKeys, isText⟩ := yields_addMissing (members ++ ids) "createdAt" text s
  refine ⟨ids ++ times, all.trans (List.append_assoc members ids times), ?_, ?_, ?_⟩
  · -- The identity is no time of creation, so that is missing from the same members.
    have same : "createdAt" ∈ Table.keys (members ++ ids) ↔ "createdAt" ∈ members.keys := by
      rw [Table.keys, List.map_append, List.mem_append]
      refine or_iff_left fun member => ?_
      obtain ⟨m, inside, key⟩ := List.mem_map.1 member
      exact absurd (key.symm.trans (isInteger m inside).1) (by decide)
    have last : ["createdAt"].filter (fun key => key ∉ Table.keys (members ++ ids)) =
        ["createdAt"].filter fun key => key ∉ members.keys := by
      simp only [List.filter_cons, List.filter_nil, same]
    rw [Table.keys, List.map_append, ← Table.keys, ← Table.keys, idKeys, timeKeys, last,
      ← List.filter_append, List.singleton_append]
  · intro v member
    obtain old | new := List.mem_append.1 member
    · exact (isInteger _ old).2
    · exact absurd (isText _ new).1 (by simp)
  · intro v member
    obtain old | new := List.mem_append.1 member
    · exact absurd (isInteger _ old).1 (by simp)
    · exact (isText _ new).2

/-- Wherever the stream stands, the example of a model class has the members of its name and those
of its fields, each once. What is sent for it are these without the members that a server assigns.
What is answered for it are these, and behind them an integer `id` and a text `createdAt` where they
are missing. -/
theorem examples_of_dtoMembers (cache : Dto.Cache) (name : String) (s : Stream) :
    let members := ((dtoMembers cache name).run s).1
    members.keys.Nodup ∧
      members.keys = (identityNames name ++ (cache.fields name).map (·.name)).eraseDups ∧
      ((forRequest cache name).run s).1 =
        .object (members.filter fun m => m.1 ∉ ["id", "createdAt", "updatedAt"]) ∧
      ∃ added, ((forResponse cache name).run s).1 = .object (members ++ added) ∧
        Completes members added := by
  intro members
  have keys := yields_dtoMembers cache name s
  refine ⟨keys ▸ Table.nodup_eraseDups _, keys, ?_, ?_⟩
  · have kept (m : String × Json) : (!serverAssigned.contains m.1) =
        decide (m.1 ∉ ["id", "createdAt", "updatedAt"]) := by
      rw [serverAssigned, List.contains_eq_mem, decide_not]
    simp only [← kept]
    rfl
  · obtain ⟨added, all, completes⟩ :=
      yields_completed members ((dtoMembers cache name).run s).2
    exact ⟨added, congrArg Json.object all, completes⟩

end ApiCollection.Example
