import ApiCollection.Json.Value

/-!
# Shapes of values

A descriptor says what a value looks like without naming the language its type was written
in: a scalar, a free-form map, an array, or a reference to a named component.

A schema is a record of optional keywords. Components are referred to by a pointer into the
document that holds them.
-/

namespace ApiCollection.Schema

/-- The JSON types of scalars, and the opaque object. -/
inductive Kind where
  | string
  | integer
  | number
  | boolean
  | object
  deriving DecidableEq, Repr

def Kind.name : Kind → String
  | .string => "string"
  | .integer => "integer"
  | .number => "number"
  | .boolean => "boolean"
  | .object => "object"

inductive Descriptor where
  /-- A scalar or an opaque object, with a format. -/
  | primitive (kind : Kind) (format : Option String)
  /-- A free-form object. -/
  | map
  /-- An array of one shape. -/
  | array (item : Descriptor)
  /-- The component of that name. -/
  | reference (name : String)
  deriving DecidableEq, Repr

namespace Descriptor

def isArray : Descriptor → Bool
  | .array _ => true
  | _ => false

/-- The JSON type of the outermost shape. -/
def kindName : Descriptor → String
  | .primitive kind _ => kind.name
  | .map => "object"
  | .reference _ => "object"
  | .array _ => "array"

def format : Descriptor → Option String
  | .primitive _ format => format
  | _ => none

/-- The component that the shape points at, seen through arrays. -/
def referencedName : Descriptor → Option String
  | .reference name => some name
  | .array item => item.referencedName
  | _ => none

end Descriptor
end ApiCollection.Schema

namespace ApiCollection

structure Schema where
  type : Option String := none
  format : Option String := none
  properties : Option (List (String × Schema)) := none
  required : Option (List String) := none
  items : Option Schema := none
  additionalProperties : Option Bool := none
  reference : Option String := none
  default : Option Json := none

namespace Schema

instance : Inhabited Schema := ⟨{}⟩

def componentsPointer : String := "#/components/schemas/"

def typed (type : String) (format : Option String) : Schema :=
  { type := some type, format := format }

def ref (name : String) : Schema := { reference := some (componentsPointer ++ name) }

def array (items : Schema) : Schema := { type := some "array", items := some items }

def freeForm : Schema := { type := some "object", additionalProperties := some true }

def ofDescriptor : Descriptor → Schema
  | .primitive kind format => typed kind.name format
  | .map => freeForm
  | .array item => array (ofDescriptor item)
  | .reference name => ref name

mutual

/-- A schema as a JSON object: its keywords in a fixed order, absent ones left out. -/
def toJson : Schema → Json
  | ⟨type, format, properties, required, items, additionalProperties, reference, default⟩ =>
    .object (Json.present [
      ("type", type.map .string),
      ("format", format.map .string),
      ("properties", propertiesJson? properties),
      ("required", required.map fun names => .array (names.map .string)),
      ("items", itemsJson? items),
      ("additionalProperties", additionalProperties.map .bool),
      ("$ref", reference.map .string),
      ("default", default)])

def propertiesJson? : Option (Table Schema) → Option Json
  | none => none
  | some properties => some (.object (propertiesMembers properties))

def propertiesMembers : Table Schema → Json.Members
  | [] => []
  | (name, schema) :: rest => (name, schema.toJson) :: propertiesMembers rest

def itemsJson? : Option Schema → Option Json
  | none => none
  | some schema => some schema.toJson

end

end Schema
end ApiCollection
