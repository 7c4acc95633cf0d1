import ApiCollection.Proofs.SchemaConformance
import ApiCollection.Proofs.SettledValues

/-!
# Samples that conform

A sample is made from one keyword of its schema, the leading one, and the others are passed over. It
conforms exactly if the others accept it, on every level.
-/

namespace ApiCollection.Conversion

/-- The keyword that the sample of a schema of a type is made from. -/
def typeLeading (type : String) : Keyword :=
  if type = "object" then .properties else if type = "array" then .items else .type

def leading (schema : Json) : Keyword :=
  if (schema.get? "enum").isSome then .enum
  else if (schema.get? "allOf").isSome then .allOf
  else if (schema.get? "oneOf").isSome then .oneOf
  else if (schema.get? "anyOf").isSome then .anyOf
  else typeLeading (schemaType schema)

def firstItem (schema : Json) (name : String) : Json := (schema.follow? [name, "0"]).getD .null

/-- What is made from a keyword, with at most some levels of parts. -/
def sampleFrom (document : Json) (levels : Nat) (schema : Json) : Keyword → Json
  | .enum => firstItem schema "enum"
  | .allOf => mergeObjects ((schema.getItems "allOf").map (sampleWithin document levels))
  | .oneOf => sampleWithin document levels (firstItem schema "oneOf")
  | .anyOf => sampleWithin document levels (firstItem schema "anyOf")
  | .properties => .object ((schema.getMembers "properties").map fun e =>
      (e.1, sampleWithin document levels e.2))
  | .items => .array ((schema.get? "items").toList.map (sampleWithin document levels))
  | .type => scalarSample (schemaType schema) ((schema.getString? "format").getD "")

private theorem schemaType_of_leading {schema : Json} (h : leading schema = .type) :
    schemaType schema ≠ "object" ∧ schemaType schema ≠ "array" := by
  unfold leading typeLeading at h
  split_ifs at h with _ _ _ _ object array
  exact ⟨object, array⟩

namespace Readable

variable {document schema : Json} (readable : Readable document schema)

include readable

theorem follow?_eq (name : String) : (resolve document schema).follow? [name, "0"] =
    (Table.get? (keywordsOf document schema) name).bind fun list => list.step? "0" := by
  rw [readable.object]
  simp [Json.step?]

private theorem follow?_eq_none {name : String}
    (absent : ¬((resolve document schema).get? name).isSome) :
    (resolve document schema).follow? [name, "0"] = none := by
  rw [Option.not_isSome_iff_eq_none, readable.get?_eq] at absent
  rw [readable.follow?_eq, absent]
  rfl

theorem follow?_eq_some {k : Keyword} {first : Json} {rest : List Json}
    (member : (k.name, .array (first :: rest)) ∈ keywordsOf document schema) :
    (resolve document schema).follow? [k.name, "0"] = some first := by
  have found := readable.get?_eq_some member
  rw [readable.get?_eq] at found
  rw [readable.follow?_eq, found]
  rfl

theorem firstItem_eq {k : Keyword} {first : Json} {rest : List Json}
    (member : (k.name, .array (first :: rest)) ∈ keywordsOf document schema) :
    firstItem (resolve document schema) k.name = first := by
  rw [firstItem, readable.follow?_eq_some member]
  rfl

/-- A list that may not be empty has a first item. -/
theorem follow?_eq_firstItem {k : Keyword} (list : k = .enum ∨ k = .oneOf ∨ k = .anyOf)
    (present : ((resolve document schema).get? k.name).isSome = true) :
    (resolve document schema).follow? [k.name, "0"] =
      some (firstItem (resolve document schema) k.name) := by
  obtain ⟨argument, found⟩ := Option.isSome_iff_exists.1 present
  have member := readable.mem_of_get? found
  rcases list with rfl | rfl | rfl <;> cases readable.written _ argument member <;>
    rw [readable.firstItem_eq member, readable.follow?_eq_some member]

private theorem getItems_eq {k : Keyword} {parts : List Json}
    (member : (k.name, .array parts) ∈ keywordsOf document schema) :
    (resolve document schema).getItems k.name = parts := by
  rw [Json.getItems, readable.get?_eq_some member]
  rfl

private theorem declaredSample?_eq : declaredSample? (resolve document schema) =
    (resolve document schema).follow? ["enum", "0"] := by
  rw [declaredSample?, readable.get?_eq_none (by simp), readable.get?_eq_none (by simp)]
  rfl

private theorem items?_allOf (present : ((resolve document schema).get? "allOf").isSome = true) :
    ((resolve document schema).get? "allOf").bind Json.items? =
      some ((resolve document schema).getItems "allOf") := by
  obtain ⟨argument, found⟩ := Option.isSome_iff_exists.1 present
  cases readable.written .allOf argument (readable.mem_of_get? found)
  rw [Json.getItems, found]
  rfl

/-- The walk takes the first keyword that there is, in the order of its branches. -/
theorem sampleWithin_eq (levels : Nat) : sampleWithin document (levels + 1) schema =
    sampleFrom document levels (resolve document schema) (leading (resolve document schema)) := by
  rw [sampleWithin, readable.declaredSample?_eq]
  unfold leading alternative?
  split_ifs with enum allOf oneOf anyOf
  · have found := readable.follow?_eq_firstItem (k := .enum) (by simp) enum
    rw [Keyword.name] at found
    rw [found]
    rfl
  · rw [readable.follow?_eq_none enum, readable.items?_allOf allOf]
    rfl
  all_goals
    rw [readable.follow?_eq_none enum, Option.not_isSome_iff_eq_none.1 allOf]
    dsimp only [Option.bind_none]
  · have found := readable.follow?_eq_firstItem (k := .oneOf) (by simp) oneOf
    rw [Keyword.name] at found
    rw [found]
    rfl
  · have found := readable.follow?_eq_firstItem (k := .anyOf) (by simp) anyOf
    rw [Keyword.name] at found
    rw [readable.follow?_eq_none oneOf, found]
    rfl
  · rw [readable.follow?_eq_none oneOf, readable.follow?_eq_none anyOf]
    dsimp only [Option.none_or]
    split
    · rename_i object
      rw [object]
      rfl
    · rename_i array
      rw [array]
      cases items : (resolve document schema).get? "items" <;>
        simp [typeLeading, sampleFrom, items]
    · rename_i object array
      rw [typeLeading, if_neg object, if_neg array, sampleFrom]

end Readable

/-- The samples of scalar types are of that type. -/
theorem mem_typesOf_scalarSample {type : String} (known : type ∈ typeNames)
    (object : type ≠ "object") (array : type ≠ "array") (format : String) :
    type ∈ typesOf (scalarSample type format) := by
  simp only [typeNames, List.mem_cons, List.not_mem_nil, object, array, false_or, or_false] at known
  rcases known with rfl | rfl | rfl | rfl
  · exact List.mem_cons_self
  · exact List.mem_cons_self
  · exact List.mem_cons_self
  · exact List.mem_cons_self

private theorem get?_map_sample (document : Json) (levels : Nat) (declared : Json.Members)
    (name : String) :
    Table.get? (declared.map fun e => (e.1, sampleWithin document levels e.2)) name =
      (Table.get? declared name).map (sampleWithin document levels) :=
  Table.get?_map_values _ _ _

/-- What is made from a keyword meets it if the samples of its parts are accepted by these. A merged
object is made from several samples, so this says nothing about it. -/
theorem Readable.meets_leading_iff {accepts : Json → Json → Prop} {document schema argument : Json}
    (readable : Readable document schema) {levels : Nat} {k : Keyword}
    (member : (k.name, argument) ∈ keywordsOf document schema)
    (leads : k = leading (resolve document schema)) (single : k ≠ .allOf) :
    Meets accepts k argument (sampleWithin document (levels + 1) schema) ↔
      ∀ part ∈ k.parts argument, accepts part (sampleWithin document levels part) := by
  have found := readable.get?_eq_some member
  rw [readable.sampleWithin_eq, ← leads]
  cases readable.written k argument member with
  | @type type known =>
    obtain ⟨object, array⟩ := schemaType_of_leading leads.symm
    have type' : schemaType (resolve document schema) = type := by
      rw [Keyword.name] at found
      rw [schemaType, Json.getString?, found]
      rfl
    rw [type'] at object array
    rw [sampleFrom, type', meets_type_iff]
    simp [mem_typesOf_scalarSample known object array, Keyword.parts]
  | enum first rest | oneOf first rest | anyOf first rest =>
    -- one of several items: the first one is taken
    have item := readable.firstItem_eq member
    rw [Keyword.name] at item
    simp [sampleFrom, item, Keyword.parts]
  | allOf parts => exact absurd rfl single
  | @properties declared nodup =>
    rw [Keyword.name] at found
    rw [sampleFrom, Json.getMembers, found]
    simp only [Option.bind_some, Json.members?, Option.getD_some, meets_properties_iff,
      get?_map_sample, Keyword.parts, List.forall_mem_map]
    refine forall₂_congr fun e he => ?_
    rw [Table.get?_eq_some_of_mem nodup he]
    simp
  | items =>
    rw [Keyword.name] at found
    simp [sampleFrom, found, Keyword.parts]

variable {document schema : Json}

/-- On every level that a sample is made from, the keywords that are passed over accept what is made
from the leading one, and a merged object is accepted by all of its parts. -/
def KeywordsAgree (document : Json) : Nat → Json → Prop
  | 0, _ => True
  | levels + 1, schema =>
    ∀ (k : Keyword) (argument : Json), (k.name, argument) ∈ keywordsOf document schema →
      if k = leading (resolve document schema) ∧ k ≠ .allOf then
        ∀ part ∈ k.parts argument, KeywordsAgree document levels part
      else Meets (Conforms document) k argument (sampleWithin document (levels + 1) schema)

private theorem conforms_sampleWithin_iff {levels : Nat}
    (unfolds : Unfolds document levels schema) :
    Conforms document schema (sampleWithin document levels schema) ↔
      KeywordsAgree document levels schema := by
  induction levels generalizing schema with
  | zero => exact unfolds.elim
  | succ levels ih =>
    obtain ⟨readable, parts⟩ := unfolds
    rw [readable.conforms_iff, KeywordsAgree]
    refine forall₃_congr fun k argument member => ?_
    split
    · rename_i leads
      rw [readable.meets_leading_iff member leads.1 leads.2]
      exact forall₂_congr fun part hp => ih (parts k argument member part hp)
    · rfl

/-- Objects that have the same values under the same names. -/
def Compatible (objects : List Json) : Prop :=
  ∀ a ∈ objects, ∀ b ∈ objects, ∀ e ∈ a.members?.getD [], ∀ f ∈ b.members?.getD [],
    e.1 = f.1 → e.2 = f.2

instance (objects : List Json) : Decidable (Compatible objects) :=
  inferInstanceAs (Decidable (∀ a ∈ objects, ∀ b ∈ objects, ∀ e ∈ a.members?.getD [],
    ∀ f ∈ b.members?.getD [], e.1 = f.1 → e.2 = f.2))

private theorem mem_members_of_get? {a v : Json} {name : String} (found : a.get? name = some v) :
    (name, v) ∈ a.members?.getD [] := by
  obtain ⟨members, object, found⟩ := Option.bind_eq_some_iff.1 found
  rw [object]
  exact Table.mem_of_get?_eq_some found

private theorem mergeObjects_eq (parts : List Json) : mergeObjects parts =
    .object (Table.ofList (parts.flatMap fun part => part.members?.getD [])) := rfl

/-- A merged object has the members of its parts when these are compatible. -/
theorem get?_merged {objects : List Json} (compatible : Compatible objects) {a v : Json}
    (ha : a ∈ objects) {name : String} (found : a.get? name = some v) :
    Table.get? (Table.ofList (objects.flatMap fun part => part.members?.getD [])) name =
      some v := by
  have member := mem_members_of_get? found
  obtain ⟨nodup, keys⟩ := Table.keys_ofList (objects.flatMap fun part => part.members?.getD [])
  have known := (keys name).2
    (List.mem_map.2 ⟨_, List.mem_flatMap.2 ⟨a, ha, member⟩, rfl⟩)
  obtain ⟨⟨name', w⟩, entry, rfl⟩ := List.mem_map.1 known
  obtain ⟨b, hb, other⟩ := List.mem_flatMap.1 (Table.mem_ofList entry)
  rw [Table.get?_eq_some_of_mem nodup entry]
  exact congrArg some (compatible b hb a ha _ other _ member rfl)

/-- A schema that only asks for an object with some members. -/
def Open (document : Json) : Nat → Json → Prop
  | 0, _ => True
  | levels + 1, schema =>
    ∀ (k : Keyword) (argument : Json), (k.name, argument) ∈ keywordsOf document schema →
      (k = .type → argument = .string "object") ∧ k ≠ .enum ∧ k ≠ .items ∧
        (k ≠ .properties → ∀ part ∈ k.parts argument, Open document levels part)

instance decidableOpen (document : Json) : ∀ (levels : Nat) (schema : Json),
    Decidable (Open document levels schema)
  | 0, _ => instDecidableTrue
  | levels + 1, _ =>
    have := decidableOpen document levels
    Keyword.decidableForall

/-- An open schema accepts an object with further members. -/
theorem Conforms.of_open {levels : Nat} {v : Json} {members : Json.Members}
    (kept : ∀ name w, v.get? name = some w → Table.get? members name = some w)
    (unfolds : Unfolds document levels schema) (open' : Open document levels schema)
    (conforms : Conforms document schema v) : Conforms document schema (.object members) := by
  induction levels generalizing schema with
  | zero => exact unfolds.elim
  | succ levels ih =>
    obtain ⟨readable, parts⟩ := unfolds
    rw [readable.conforms_iff] at conforms ⊢
    intro k argument member
    obtain ⟨object, unlisted, single, opened⟩ := open' k argument member
    have below := parts k argument member
    cases conforms k argument member with
    | type =>
      rw [object rfl]
      exact .type List.mem_cons_self
    | enum => exact absurd rfl unlisted
    | allOf accepted =>
      exact .allOf fun part hp => ih (below part hp) (opened (by simp) part hp) (accepted part hp)
    | oneOf accepted =>
      exact .oneOf (ih (below _ (by simp [Keyword.parts]))
        (opened (by simp) _ (by simp [Keyword.parts])) accepted)
    | anyOf accepted =>
      exact .anyOf (ih (below _ (by simp [Keyword.parts]))
        (opened (by simp) _ (by simp [Keyword.parts])) accepted)
    | properties present accepted =>
      refine meets_properties_iff.2 fun e he => ?_
      obtain ⟨w, found⟩ := Option.isSome_iff_exists.1 (present e he)
      exact ⟨w, kept e.1 w found, accepted e he w found⟩
    | items => exact absurd rfl single

/-- A schema with one keyword, and a type that fits, on every level. The parts that are merged are
open, and samples of the same name are alike in them. -/
def Unmixed (document : Json) : Nat → Json → Prop
  | 0, _ => True
  | levels + 1, schema =>
    ∀ (k : Keyword) (argument : Json), (k.name, argument) ∈ keywordsOf document schema →
      if k = leading (resolve document schema) then
        (∀ part ∈ k.parts argument, Unmixed document levels part) ∧
          (k = .allOf → (∀ part ∈ k.parts argument, Open document levels part) ∧
            Compatible ((k.parts argument).map (sampleWithin document levels)))
      else k = .type ∧
        argument ∈ (typesOf (sampleWithin document (levels + 1) schema)).map Json.string

instance decidableUnmixed (document : Json) : ∀ (levels : Nat) (schema : Json),
    Decidable (Unmixed document levels schema)
  | 0, _ => instDecidableTrue
  | levels + 1, _ =>
    have := decidableUnmixed document levels
    Keyword.decidableForall

private theorem Readable.sampleWithin_allOf (readable : Readable document schema) {levels : Nat}
    {parts : List Json} (member : (Keyword.allOf.name, .array parts) ∈ keywordsOf document schema)
    (leads : .allOf = leading (resolve document schema)) :
    sampleWithin document (levels + 1) schema =
      mergeObjects (parts.map (sampleWithin document levels)) := by
  have items := readable.getItems_eq member
  rw [Keyword.name] at items
  rw [readable.sampleWithin_eq, ← leads, sampleFrom, items]

private theorem conforms_of_unmixed {levels : Nat} (unfolds : Unfolds document levels schema)
    (unmixed : Unmixed document levels schema) :
    Conforms document schema (sampleWithin document levels schema) := by
  induction levels generalizing schema with
  | zero => exact unfolds.elim
  | succ levels ih =>
    obtain ⟨readable, below⟩ := unfolds
    rw [readable.conforms_iff]
    intro k argument member
    have kept := unmixed k argument member
    split at kept
    · rename_i leads
      obtain ⟨plain, merged⟩ := kept
      have accepted : ∀ part ∈ k.parts argument,
          Conforms document part (sampleWithin document levels part) :=
        fun part hp => ih (below k argument member part hp) (plain part hp)
      by_cases single : k = .allOf
      · subst single
        obtain ⟨opened, compatible⟩ := merged rfl
        cases readable.written _ argument member with
        | allOf parts =>
          rw [readable.sampleWithin_allOf member leads, mergeObjects_eq]
          refine .allOf fun part hp => ?_
          refine Conforms.of_open ?_ (below _ _ member part hp) (opened part hp) (accepted part hp)
          exact fun name w found => get?_merged compatible (List.mem_map_of_mem hp) found
      · exact (readable.meets_leading_iff member leads single).2 accepted
    · obtain ⟨rfl, type⟩ := kept
      obtain ⟨type, known, rfl⟩ := List.mem_map.1 type
      exact .type known

/-- The sample of a schema that nests to the depth that samples are made for conforms exactly if its
keywords agree. So it does when no keywords are mixed. -/
theorem conforms_sample_iff (unfolds : Unfolds document (maxDepth + 1) schema) :
    (Conforms document schema (sample document schema) ↔
      KeywordsAgree document (maxDepth + 1) schema) ∧
    (Unmixed document (maxDepth + 1) schema → Conforms document schema (sample document schema)) :=
  ⟨conforms_sampleWithin_iff unfolds, conforms_of_unmixed unfolds⟩

def componentReference (name : String) : Json :=
  .object [("$ref", .string ("#/components/schemas/" ++ name))]

def kennelDocument : Json :=
  .object [("components", .object [("schemas", .object [
    ("Pet", .object [("type", .string "object"),
      ("properties", .object [("name", .object [("type", .string "string")])])]),
    ("Status", .object [("type", .string "string"),
      ("enum", .array [.string "lost", .string "found"])])])])]

/-- A pet with its status and its young. -/
def dogSchema : Json :=
  .object [("allOf", .array [componentReference "Pet",
    .object [("properties", .object [("status", componentReference "Status"),
      ("young", .object [("type", .string "array"), ("items", componentReference "Pet")])])]])]

theorem conforms_sample_dog : Unfolds kennelDocument (maxDepth + 1) dogSchema ∧
    Conforms kennelDocument dogSchema (sample kennelDocument dogSchema) := by
  have unfolds : Unfolds kennelDocument (maxDepth + 1) dogSchema := by decide +kernel
  have unmixed : Unmixed kennelDocument (maxDepth + 1) dogSchema := by decide +kernel
  exact ⟨unfolds, (conforms_sample_iff unfolds).2 unmixed⟩

/-- A part that is a text is lost, as only the members of objects are merged. -/
theorem exists_not_conforms_sample : ¬∀ document schema : Json,
    Unfolds document (maxDepth + 1) schema → Conforms document schema (sample document schema) := by
  intro all
  let schema : Json := .object [("allOf", .array [componentReference "Status"])]
  have unfolds : Unfolds kennelDocument (maxDepth + 1) schema := by decide +kernel
  have status : Readable kennelDocument (componentReference "Status") := by decide +kernel
  have made : sample kennelDocument schema = .object [] := by decide +kernel
  have conforms := all kennelDocument schema unfolds
  rw [made, unfolds.readable.conforms_iff] at conforms
  have met := conforms .allOf (.array [componentReference "Status"]) (by decide +kernel)
  have part := meets_allOf_iff.1 met _ List.mem_cons_self
  rw [status.conforms_iff] at part
  have type := meets_type_iff.1 (part .type (.string "string") (by decide +kernel))
  simp [typesOf] at type

end ApiCollection.Conversion
