import ApiCollection.Dto.Basic
import ApiCollection.Example.Rules

/-!
# Example values by type

A type is followed through its containers down to scalars and model classes. Model classes are
expanded into objects at most `maxDtoDepth` deep.

A recipe says how an example is made without making it. A stream of random words turns recipes
into values.
-/

namespace ApiCollection.Example

open Java ApiCollection.Random

/-- How deep model classes are expanded inside of each other. -/
def maxDtoDepth : Nat := 3

def scalar (base : String) : Draw Json :=
  match base with
  | "String" | "CharSequence" => .string <$> pick fillerWords
  | "char" | "Character" => return .string "A"
  | "int" | "Integer" | "short" | "Short" => number 1 100
  | "long" | "Long" => number 1 10000
  | "byte" | "Byte" => number 0 127
  | "BigInteger" => number 1 1000000
  | "float" | "Float" | "double" | "Double" => amount 0 100000
  | "BigDecimal" => amount 0 1000000
  | "boolean" | "Boolean" => .bool <$> coin
  | "LocalDate" => do return .string (dateText (← moment))
  | "LocalDateTime" => do return .string (momentText (← moment))
  | "Date" | "ZonedDateTime" | "OffsetDateTime" | "Instant" | "Timestamp" =>
    .string <$> timestamp
  | "UUID" => .string <$> uuid
  | "URI" | "URL" => .string <$> webAddress
  | "MultipartFile" => return .string "file.bin"
  | _ => return .object []

/-- An array of two values that are drawn one after the other. -/
def pair (item : Draw Json) : Draw Json := do
  let first ← item
  let second ← item
  return .array [first, second]

/-- Wraps a draw into pairs, one for each array suffix; arrays of bytes are an encoded text. -/
def suffixed (base : String) (value : Draw Json) : Nat → Draw Json
  | 0 => value
  | 1 => if TypeExpr.isByteName base then return .string "ZXhhbXBsZQ==" else pair value
  | depth + 2 => pair (suffixed base value (depth + 1))

def freeForm : Json := .object [("key1", .string "value1"), ("key2", .string "value2")]

mutual

/-- The value of a type, where `named` draws the values of model classes. A wrapper directly
around `Void` has no value. -/
def ofType (named : String → Draw Json) : TypeExpr → Draw Json
  | ⟨base, args, depth⟩ =>
    let value := match TypeFamily.of base with
      | .scalar _ _ => scalar base
      | .collection => pair (ofFirst named args)
      | .stream => pair (ofFirst named args)
      | .map => return freeForm
      | .wrapper =>
        if (args.head?.getD .object).base == "Void" then return .null else ofFirst named args
      | .named => named base
    suffixed base value depth

/-- The value of the first argument; a missing one is an empty object. -/
def ofFirst (named : String → Draw Json) : List TypeExpr → Draw Json
  | [] => scalar "Object"
  | t :: _ => ofType named t

end

/-- The value of a type given by its text; nothing at all is written for an example. -/
def ofTypeText (named : String → Draw Json) (type : String) : Draw Json :=
  if Text.allBlank type.toList then return .string "example"
  else ofType named (.parse type)

/-- The value of a field: a rule for its name comes before its type. -/
def ofField (named : String → Draw Json) (name type : String) : Draw Json :=
  match rule? name with
  | some rule => rule.draw
  | none => ofTypeText named type

/-- The members that an object has because of its name: something like a user has an identity. -/
def identity (name : String) : Draw Json.Members := do
  if Dto.mentions name "user" then
    let id ← number 1 1000
    let fullName ← fullName
    let email ← email
    return [("id", id), ("name", .string fullName), ("email", .string email)]
  else return []

/-- Adds the values of fields, leaving out those whose name is present. -/
def addFields (named : String → Draw Json) (members : Json.Members) :
    List Field → Draw Json.Members
  | [] => return members
  | field :: rest => do
    if members.has field.name then addFields named members rest
    else
      let value ← ofField named field.name field.type
      addFields named (members ++ [(field.name, value)]) rest

def ofFields (named : String → Draw Json) (name : String) (fields : List Field) :
    Draw Json.Members := do
  addFields named (← identity name) fields

/-- The value of a model class that may be expanded `levels` deep. An unknown class, or one below
the last level, is null. -/
def ofName (cache : Dto.Cache) : Nat → String → Draw Json
  | 0, _ => return .null
  | levels + 1, name => match cache.get? name with
    | none => return .null
    | some dto => .object <$> ofFields (ofName cache levels) name dto.fields

def forType (cache : Dto.Cache) (type : String) : Draw Json :=
  ofTypeText (ofName cache maxDtoDepth) type

def forField (cache : Dto.Cache) (name type : String) : Draw Json :=
  ofField (ofName cache maxDtoDepth) name type

/-- The object of a model class, with the fields that its name suggests when it is unknown. -/
def dtoMembers (cache : Dto.Cache) (name : String) : Draw Json.Members :=
  ofFields (ofName cache maxDtoDepth) name (cache.fields name)

def serverAssigned : List String := ["id", "createdAt", "updatedAt"]

/-- The object that is sent for a model class: without the members that a server assigns. -/
def forRequest (cache : Dto.Cache) (name : String) : Draw Json := do
  return .object ((← dtoMembers cache name).filter fun m => !serverAssigned.contains m.1)

/-- Adds a member unless its key is present; only then a value is drawn. -/
def addMissing (members : Json.Members) (key : String) (value : Draw Json) :
    Draw Json.Members := do
  if members.has key then return members else return members ++ [(key, ← value)]

/-- The object that is answered for a model class: with an identity and a time of creation. -/
def forResponse (cache : Dto.Cache) (name : String) : Draw Json := do
  let members ← dtoMembers cache name
  let members ← addMissing members "id" (number 1 1000)
  let members ← addMissing members "createdAt" (.string <$> timestamp)
  return .object members

/-- Several objects that are answered for a model class. -/
def forResponses (cache : Dto.Cache) (name : String) (count : Nat) : Draw Json :=
  .array <$> times count (forResponse cache name)

def errorReason (status : Nat) : String :=
  match status with
  | 400 => "Bad Request"
  | 401 => "Unauthorized"
  | 403 => "Forbidden"
  | 404 => "Not Found"
  | 409 => "Conflict"
  | 422 => "Unprocessable Entity"
  | 500 => "Internal Server Error"
  | _ => "Error"

def forError (status : Nat) (message path : String) : Draw Json := do
  return .object [("timestamp", .string (← timestamp)), ("status", .int status),
    ("error", .string (errorReason status)), ("message", .string message), ("path", .string path)]

end ApiCollection.Example

namespace ApiCollection

/-- How an example is made. -/
inductive Recipe where
  /-- The value of a field. -/
  | field (name type : String)
  /-- The value of a type. -/
  | value (type : String)
  /-- The object that is sent for a model class. -/
  | request (name : String)
  /-- An array with one object that is sent for a model class. -/
  | requests (name : String)
  /-- The object that is answered for a model class. -/
  | response (name : String)
  /-- The configured number of objects that are answered for a model class. -/
  | responses (name : String)
  /-- The body of an error. -/
  | error (status : Nat) (message path : String)
  deriving DecidableEq, Repr

namespace Recipe

open ApiCollection.Random

def draw (cache : Dto.Cache) (listSize : Nat) : Recipe → Draw Json
  | .field name type => Example.forField cache name type
  | .value type => Example.forType cache type
  | .request name => Example.forRequest cache name
  | .requests name => do return .array [← Example.forRequest cache name]
  | .response name => Example.forResponse cache name
  | .responses name => Example.forResponses cache name listSize
  | .error status message path => Example.forError status message path

def draw? (cache : Dto.Cache) (listSize : Nat) : Option Recipe → Draw (Option Json)
  | none => return none
  | some recipe => some <$> recipe.draw cache listSize

end Recipe
end ApiCollection
