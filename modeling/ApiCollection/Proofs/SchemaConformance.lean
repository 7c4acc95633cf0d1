import ApiCollection.Conversion.Request
import ApiCollection.Proofs.TableEntries

/-!
# Conformance to schemas

A schema is a reference to another one, or an object of keywords. A value conforms to it when it
meets every one of its keywords; of several alternatives, the first one counts.
-/

namespace ApiCollection.Conversion

/-- The keywords that schemas are built from. -/
inductive Keyword where
  | type
  | enum
  | allOf
  | oneOf
  | anyOf
  | properties
  | items
  deriving DecidableEq

namespace Keyword

def name : Keyword → String
  | type => "type"
  | enum => "enum"
  | allOf => "allOf"
  | oneOf => "oneOf"
  | anyOf => "anyOf"
  | properties => "properties"
  | items => "items"

/-- The schemas in the argument of a keyword that a value is judged by. -/
def parts : Keyword → Json → List Json
  | allOf, .array parts => parts
  | oneOf, .array (first :: _) => [first]
  | anyOf, .array (first :: _) => [first]
  | properties, .object declared => declared.map Prod.snd
  | items, argument => [argument]
  | _, _ => []

def all : List Keyword := [type, enum, allOf, oneOf, anyOf, properties, items]

private theorem mem_all (k : Keyword) : k ∈ all := by cases k <;> simp [all]

/-- What is asked of all keywords among some members is asked of one member after the other. -/
theorem forall_mem_iff {members : Json.Members} {p : Keyword → Json → Prop} :
    (∀ m ∈ members, ∀ k ∈ all, k.name = m.1 → p k m.2) ↔
      ∀ (k : Keyword) (argument : Json), (k.name, argument) ∈ members → p k argument := by
  constructor
  · intro each k argument member
    exact each _ member k k.mem_all rfl
  · rintro each ⟨name, argument⟩ member k - rfl
    exact each k argument member

instance decidableForall {members : Json.Members} {p : Keyword → Json → Prop}
    [∀ k argument, Decidable (p k argument)] :
    Decidable (∀ (k : Keyword) (argument : Json), (k.name, argument) ∈ members → p k argument) :=
  decidable_of_iff _ forall_mem_iff

end Keyword

def typesOf : Json → List String
  | .null => []
  | .bool _ => ["boolean"]
  | .number (.integer _) => ["integer", "number"]
  | .number (.real _) => ["number"]
  | .string _ => ["string"]
  | .array _ => ["array"]
  | .object _ => ["object"]

/-- What a keyword with an argument asks of a value, where it is known which values the schemas in
the argument accept. -/
inductive Meets (accepts : Json → Json → Prop) : Keyword → Json → Json → Prop where
  | type {type : String} {v : Json} : type ∈ typesOf v → Meets accepts .type (.string type) v
  | enum {values : List Json} {v : Json} : v ∈ values → Meets accepts .enum (.array values) v
  | allOf {parts : List Json} {v : Json} :
      (∀ part ∈ parts, accepts part v) → Meets accepts .allOf (.array parts) v
  | oneOf {first : Json} {rest : List Json} {v : Json} :
      accepts first v → Meets accepts .oneOf (.array (first :: rest)) v
  | anyOf {first : Json} {rest : List Json} {v : Json} :
      accepts first v → Meets accepts .anyOf (.array (first :: rest)) v
  /-- Every property that is declared is there and is accepted. -/
  | properties {declared members : Json.Members} :
      (∀ e ∈ declared, (Table.get? members e.1).isSome = true) →
      (∀ e ∈ declared, ∀ v, Table.get? members e.1 = some v → accepts e.2 v) →
      Meets accepts .properties (.object declared) (.object members)
  | items {argument : Json} {elements : List Json} :
      (∀ v ∈ elements, accepts argument v) → Meets accepts .items argument (.array elements)

/-- A value that a schema in a document accepts. -/
inductive Conforms (document : Json) : Json → Json → Prop where
  | reference {schema target v : Json} : target? document schema = some target →
      Conforms document target v → Conforms document schema v
  | keywords {members : Json.Members} {v : Json} : target? document (.object members) = none →
      (∀ (k : Keyword) (argument : Json), (k.name, argument) ∈ members →
        Meets (Conforms document) k argument v) →
      Conforms document (.object members) v

section Meets

variable {accepts : Json → Json → Prop} {v : Json}

@[simp] theorem meets_type_iff {type : String} :
    Meets accepts .type (.string type) v ↔ type ∈ typesOf v :=
  ⟨fun h => by cases h; assumption, .type⟩

@[simp] theorem meets_enum_iff {values : List Json} :
    Meets accepts .enum (.array values) v ↔ v ∈ values :=
  ⟨fun h => by cases h; assumption, .enum⟩

@[simp] theorem meets_allOf_iff {parts : List Json} :
    Meets accepts .allOf (.array parts) v ↔ ∀ part ∈ parts, accepts part v :=
  ⟨fun h => by cases h; assumption, .allOf⟩

@[simp] theorem meets_oneOf_iff {first : Json} {rest : List Json} :
    Meets accepts .oneOf (.array (first :: rest)) v ↔ accepts first v :=
  ⟨fun h => by cases h; assumption, .oneOf⟩

@[simp] theorem meets_anyOf_iff {first : Json} {rest : List Json} :
    Meets accepts .anyOf (.array (first :: rest)) v ↔ accepts first v :=
  ⟨fun h => by cases h; assumption, .anyOf⟩

@[simp] theorem meets_properties_iff {declared members : Json.Members} :
    Meets accepts .properties (.object declared) (.object members) ↔
      ∀ e ∈ declared, ∃ v, Table.get? members e.1 = some v ∧ accepts e.2 v := by
  constructor
  · rintro (_ | _ | _ | _ | _ | ⟨present, accepted⟩ | _) e he
    obtain ⟨v, found⟩ := Option.isSome_iff_exists.1 (present e he)
    exact ⟨v, found, accepted e he v found⟩
  · intro all
    refine .properties (fun e he => ?_) fun e he v found => ?_
    · obtain ⟨v, found, -⟩ := all e he
      rw [found]
      rfl
    · obtain ⟨w, other, accepted⟩ := all e he
      rw [found] at other
      rwa [Option.some.inj other]

@[simp] theorem meets_items_iff {argument : Json} {elements : List Json} :
    Meets accepts .items argument (.array elements) ↔ ∀ v ∈ elements, accepts argument v :=
  ⟨fun h => by cases h; assumption, .items⟩

end Meets

variable {document schema v : Json}

private theorem conforms_target {target : Json} (h : target? document schema = some target) :
    Conforms document schema v ↔ Conforms document target v := by
  constructor
  · rintro (⟨found, accepted⟩ | ⟨none', -⟩)
    · rw [h] at found
      rwa [Option.some.inj found]
    · rw [h] at none'
      cases none'
  · exact .reference h

/-- References are transparent. -/
theorem conforms_resolve : Conforms document (resolve document schema) v ↔
    Conforms document schema v := by
  rw [resolve]
  induction maxDepth generalizing schema with
  | zero => rfl
  | succ n ih =>
    rw [resolveAtMost]
    split
    · rename_i target found
      rw [ih, conforms_target found]
    · rfl

private theorem conforms_object {members : Json.Members}
    (h : target? document (.object members) = none) :
    Conforms document (.object members) v ↔
      ∀ (k : Keyword) (argument : Json), (k.name, argument) ∈ members →
        Meets (Conforms document) k argument v := by
  constructor
  · rintro (⟨found, -⟩ | ⟨-, met⟩)
    · rw [h] at found
      cases found
    · exact met
  · exact .keywords h

/-- The types that schemas may have. -/
def typeNames : List String := ["object", "array", "string", "integer", "number", "boolean"]

/-- The arguments that keywords may have. -/
inductive Keyword.Written : Keyword → Json → Prop where
  | type {name : String} : name ∈ typeNames → Written .type (.string name)
  | enum (first : Json) (rest : List Json) : Written .enum (.array (first :: rest))
  | allOf (parts : List Json) : Written .allOf (.array parts)
  | oneOf (first : Json) (rest : List Json) : Written .oneOf (.array (first :: rest))
  | anyOf (first : Json) (rest : List Json) : Written .anyOf (.array (first :: rest))
  | properties {declared : Json.Members} :
      declared.keys.Nodup → Written .properties (.object declared)
  | items (argument : Json) : Written .items argument

instance : ∀ (k : Keyword) (argument : Json), Decidable (k.Written argument)
  | .type, .string name =>
    decidable_of_iff (name ∈ typeNames) ⟨.type, fun h => by cases h; assumption⟩
  | .enum, .array (first :: rest) => isTrue (.enum first rest)
  | .allOf, .array parts => isTrue (.allOf parts)
  | .oneOf, .array (first :: rest) => isTrue (.oneOf first rest)
  | .anyOf, .array (first :: rest) => isTrue (.anyOf first rest)
  | .properties, .object declared =>
    decidable_of_iff (Table.keys declared).Nodup ⟨.properties, fun h => by cases h; assumption⟩
  | .items, argument => isTrue (.items argument)
  | .type, .null | .type, .bool _ | .type, .number _ | .type, .array _ | .type, .object _
  | .enum, .null | .enum, .bool _ | .enum, .number _ | .enum, .string _ | .enum, .array []
  | .enum, .object _ | .allOf, .null | .allOf, .bool _ | .allOf, .number _ | .allOf, .string _
  | .allOf, .object _ | .oneOf, .null | .oneOf, .bool _ | .oneOf, .number _ | .oneOf, .string _
  | .oneOf, .array [] | .oneOf, .object _ | .anyOf, .null | .anyOf, .bool _ | .anyOf, .number _
  | .anyOf, .string _ | .anyOf, .array [] | .anyOf, .object _ | .properties, .null
  | .properties, .bool _ | .properties, .number _ | .properties, .string _
  | .properties, .array _ => isFalse (by rintro (_ | _ | _ | _ | _ | _ | _))

def keywordsOf (document schema : Json) : Json.Members := (resolve document schema).members?.getD []

/-- A schema whose references lead to an object, with no value of its own and no reference left. -/
structure Readable (document schema : Json) : Prop where
  object : resolve document schema = .object (keywordsOf document schema)
  nodup : (keywordsOf document schema).keys.Nodup
  plain : ∀ name ∈ ["$ref", "example", "default"], name ∉ (keywordsOf document schema).keys
  written : ∀ (k : Keyword) (argument : Json), (k.name, argument) ∈ keywordsOf document schema →
    k.Written argument

/-- A schema that nests schemas on at most some levels, itself the first one. -/
def Unfolds (document : Json) : Nat → Json → Prop
  | 0, _ => False
  | levels + 1, schema => Readable document schema ∧
    ∀ (k : Keyword) (argument : Json), (k.name, argument) ∈ keywordsOf document schema →
      ∀ part ∈ k.parts argument, Unfolds document levels part

instance : Decidable (Readable document schema) :=
  decidable_of_iff
    (resolve document schema = .object (keywordsOf document schema) ∧
      (keywordsOf document schema).keys.Nodup ∧
      (∀ name ∈ ["$ref", "example", "default"], name ∉ (keywordsOf document schema).keys) ∧
      ∀ (k : Keyword) (argument : Json), (k.name, argument) ∈ keywordsOf document schema →
        k.Written argument)
    ⟨fun ⟨object, nodup, plain, written⟩ => ⟨object, nodup, plain, written⟩,
      fun ⟨object, nodup, plain, written⟩ => ⟨object, nodup, plain, written⟩⟩

instance decidableUnfolds (document : Json) : ∀ (levels : Nat) (schema : Json),
    Decidable (Unfolds document levels schema)
  | 0, _ => instDecidableFalse
  | levels + 1, _ =>
    have := decidableUnfolds document levels
    instDecidableAnd

namespace Readable

variable (readable : Readable document schema)

include readable

theorem get?_eq (name : String) :
    (resolve document schema).get? name = Table.get? (keywordsOf document schema) name := by
  rw [readable.object]
  rfl

theorem get?_eq_none {name : String} (special : name ∈ ["$ref", "example", "default"]) :
    (resolve document schema).get? name = none := by
  rw [readable.get?_eq]
  exact Table.get?_eq_none (readable.plain name special)

theorem get?_eq_some {k : Keyword} {argument : Json}
    (member : (k.name, argument) ∈ keywordsOf document schema) :
    (resolve document schema).get? k.name = some argument := by
  rw [readable.get?_eq]
  exact Table.get?_eq_some_of_mem readable.nodup member

theorem mem_of_get? {k : Keyword} {argument : Json}
    (found : (resolve document schema).get? k.name = some argument) :
    (k.name, argument) ∈ keywordsOf document schema := by
  rw [readable.get?_eq] at found
  exact Table.mem_of_get?_eq_some found

private theorem target?_eq_none : target? document (resolve document schema) = none := by
  rw [target?, Json.getString?, readable.get?_eq_none (by simp)]
  rfl

/-- A value conforms to a readable schema when it meets each of its keywords. -/
theorem conforms_iff : Conforms document schema v ↔
    ∀ (k : Keyword) (argument : Json), (k.name, argument) ∈ keywordsOf document schema →
      Meets (Conforms document) k argument v := by
  have plain := readable.target?_eq_none
  rw [readable.object] at plain
  rw [← conforms_resolve, readable.object, conforms_object plain]

end Readable

theorem Unfolds.readable {levels : Nat} (unfolds : Unfolds document levels schema) :
    Readable document schema := by
  cases levels with
  | zero => exact unfolds.elim
  | succ levels => exact unfolds.1

end ApiCollection.Conversion
