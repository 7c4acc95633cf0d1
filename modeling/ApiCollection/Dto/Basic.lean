import ApiCollection.Java.TypeShape
import ApiCollection.Schema.Basic
import ApiCollection.Text.Casing
import ApiCollection.Text.Chars

/-!
# Model classes

A data transfer object has a name and typed fields. A cache keeps them in the order in which they
were found, and the first one of a name stays. A name that is not cached is looked up by its stem;
a name that nothing is known about gets fields from a template.
-/

namespace ApiCollection

structure Field where
  name : String
  type : String
  deriving DecidableEq, Repr

/-- A model class. -/
structure Dto where
  name : String
  /-- The file that it was read from. -/
  path : Option String
  fields : List Field
  deriving DecidableEq, Repr

def Field.shape (field : Field) : Schema.Descriptor := (Java.TypeExpr.parse field.type).shape

def Field.needsComponent (field : Field) : Bool :=
  (Java.TypeExpr.parse field.type).needsComponent

namespace Dto

def nameSuffixes : List String := ["DTO", "Dto", "Request", "Response"]

/-- The name without the first of the endings that it has. -/
def stem (name : String) : List Char :=
  (nameSuffixes.findSome? fun suffix => Text.before? suffix.toList name.toList).getD name.toList

/-- Model classes in the order in which they were found. -/
structure Cache where
  entries : List Dto := []
  deriving DecidableEq, Repr

namespace Cache

def has (cache : Cache) (name : String) : Bool := cache.entries.any (·.name == name)

/-- Adds a class unless one of its name is cached, and says whether it was added. -/
def insertIfNew (cache : Cache) (dto : Dto) : Bool × Cache :=
  if cache.has dto.name then (false, cache) else (true, ⟨cache.entries ++ [dto]⟩)

/-- Adds a class unless one of its name is cached. -/
def insert (cache : Cache) (dto : Dto) : Cache := (cache.insertIfNew dto).2

theorem insertIfNew_eq (cache : Cache) (dto : Dto) :
    cache.insertIfNew dto = (!cache.has dto.name, cache.insert dto) := by
  rw [insert, insertIfNew]
  cases cache.has dto.name <;> rfl

theorem insert_eq (cache : Cache) (dto : Dto) :
    cache.insert dto = if cache.has dto.name then cache else ⟨cache.entries ++ [dto]⟩ := by
  rw [insert, insertIfNew]
  split <;> rfl

def ofList (dtos : List Dto) : Cache := dtos.foldl insert {}

/-- The class of that name, else the first one whose name begins with the stem of the name. -/
def get? (cache : Cache) (name : String) : Option Dto :=
  match cache.entries.find? (·.name == name) with
  | some dto => some dto
  | none =>
    if (stem name).isEmpty then none
    else cache.entries.find? fun dto => Text.startsWith (stem name) dto.name.toList

theorem get?_eq_or (cache : Cache) (name : String) : cache.get? name =
    (cache.entries.find? fun dto => dto.name == name).or
      (if (stem name).isEmpty then none
      else cache.entries.find? fun dto => Text.startsWith (stem name) dto.name.toList) := by
  rw [get?]
  cases cache.entries.find? fun dto => dto.name == name <;> rfl

end Cache

def userTemplate : List Field :=
  [⟨"id", "Long"⟩, ⟨"name", "String"⟩, ⟨"email", "String"⟩, ⟨"createdAt", "LocalDateTime"⟩]

def productTemplate : List Field :=
  [⟨"id", "Long"⟩, ⟨"name", "String"⟩, ⟨"description", "String"⟩, ⟨"price", "BigDecimal"⟩]

def orderTemplate : List Field :=
  [⟨"id", "Long"⟩, ⟨"status", "String"⟩, ⟨"total", "BigDecimal"⟩, ⟨"createdAt", "LocalDateTime"⟩]

def plainTemplate : List Field :=
  [⟨"id", "Long"⟩, ⟨"name", "String"⟩, ⟨"createdAt", "LocalDateTime"⟩]

def mentions (name word : String) : Bool :=
  Text.occursIn word.toList (Text.lower name.toList)

/-- The fields that the name of an unknown class suggests. -/
def template (name : String) : List Field :=
  if mentions name "user" then userTemplate
  else if mentions name "product" then productTemplate
  else if mentions name "order" then orderTemplate
  else plainTemplate

namespace Cache

/-- The fields of a name: cached ones, else those of its template. -/
def fields (cache : Cache) (name : String) : List Field :=
  match cache.get? name with
  | some dto => dto.fields
  | none => template name

/-- The object schema of a name. A repeated field keeps its first place and takes its last type. -/
def objectSchema (cache : Cache) (name : String) : Schema :=
  { type := some "object"
    properties := some (Table.ofList ((cache.fields name).map fun field =>
      (field.name, .ofDescriptor field.shape))) }

end Cache
end Dto
end ApiCollection
