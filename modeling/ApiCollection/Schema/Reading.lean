import ApiCollection.Json.Parser
import ApiCollection.Schema.Basic

/-!
# Reading schemas

A schema is read from an object with its keywords, other members aside, or from an array that
holds the values of all keywords in order. A keyword that is null is absent.
-/

namespace ApiCollection.Schema

open Json (optional? list? string? bool?)

def keywords : List String :=
  ["type", "format", "properties", "required", "items", "additionalProperties", "$ref", "default"]

def repeatsKeyword (members : List (String × Json)) : Bool :=
  keywords.any fun keyword => (members.filter fun m => m.1 == keyword).length > 1

mutual

def ofJson? : Json → Option Schema
  | .object members => if repeatsKeyword members then none else ofMembers? members {}
  | .array values => ofValues? values keywords {}
  | _ => none

def ofMembers? : List (String × Json) → Schema → Option Schema
  | [], schema => some schema
  | (key, value) :: rest, schema => (setKeyword? key value schema).bind (ofMembers? rest)

def ofValues? : List Json → List String → Schema → Option Schema
  | [], [], schema => some schema
  | value :: rest, key :: keys, schema =>
    (setKeyword? key value schema).bind (ofValues? rest keys)
  | _, _, _ => none

def setKeyword? (key : String) (value : Json) (schema : Schema) : Option Schema :=
  match key with
  | "type" => (optional? string? value).map ({ schema with type := · })
  | "format" => (optional? string? value).map ({ schema with format := · })
  | "properties" => (properties? value).map ({ schema with properties := · })
  | "required" => (optional? (list? string?) value).map ({ schema with required := · })
  | "items" => (items? value).map ({ schema with items := · })
  | "additionalProperties" =>
    (optional? bool? value).map ({ schema with additionalProperties := · })
  | "$ref" => (optional? string? value).map ({ schema with reference := · })
  | "default" => (optional? (some ·.settled) value).map ({ schema with default := · })
  | _ => some schema

def properties? : Json → Option (Option (Table Schema))
  | .null => some none
  | .object members => (table? members).map fun entries => some (Table.ofList entries)
  | _ => none

def table? : List (String × Json) → Option (Table Schema)
  | [] => some []
  | (name, value) :: rest =>
    match ofJson? value, table? rest with
    | some schema, some entries => some ((name, schema) :: entries)
    | _, _ => none

def items? : Json → Option (Option Schema)
  | .null => some none
  | value => (ofJson? value).map some

end

end ApiCollection.Schema
