import ApiCollection.Java.TypeExpr

/-!
# Shapes of types

The shape of a type depends on its text only: a type whose name is not known becomes a
reference, whether or not a component of that name exists.
-/

namespace ApiCollection.Java.TypeExpr

open Schema

/-- Whether the base name is the byte type, whose arrays are texts. -/
def isByteName (base : String) : Bool := base == "byte" || base == "Byte"

/-- Wraps the shape of a base type into arrays, one for each suffix. One suffix on the byte
type gives a text in format `byte`. -/
def suffixed (base : String) (shape : Descriptor) : Nat → Descriptor
  | 0 => shape
  | 1 => if isByteName base then .primitive .string (some "byte") else .array shape
  | depth + 2 => .array (suffixed base shape (depth + 1))

mutual

def shape : TypeExpr → Descriptor
  | ⟨base, args, depth⟩ =>
    let core : Descriptor := match TypeFamily.of base with
      | .scalar kind format => .primitive kind format
      | .collection => .array (firstShape args)
      | .stream => .array (firstShape args)
      | .map => .map
      | .wrapper => firstShape args
      | .named => .reference base
    suffixed base core depth

/-- The shape of the first argument; a missing one is an opaque object. -/
def firstShape : List TypeExpr → Descriptor
  | [] => .primitive .object none
  | t :: _ => t.shape

end

mutual

/-- Whether the type has to be described by a component: it is a model, seen through arrays,
collections, streams and wrappers. -/
def needsComponent : TypeExpr → Bool
  | ⟨base, args, _⟩ => match TypeFamily.of base with
    | .scalar _ _ => false
    | .map => false
    | .collection => firstNeedsComponent args
    | .stream => firstNeedsComponent args
    | .wrapper => firstNeedsComponent args
    | .named => true

def firstNeedsComponent : List TypeExpr → Bool
  | [] => false
  | t :: _ => t.needsComponent

end

def isScalar (t : TypeExpr) : Bool :=
  match t.family with
  | .scalar _ _ => true
  | _ => false

mutual

/-- The name behind containers without array suffixes; `Entity` when that is the type of
everything. -/
def entityName : TypeExpr → String
  | ⟨base, args, depth⟩ =>
    let own := if base == "Object" then "Entity" else base
    if depth != 0 then own
    else match TypeFamily.of base with
      | .collection => firstEntityName args
      | .stream => firstEntityName args
      | .wrapper => firstEntityName args
      | .scalar _ _ => own
      | .map => own
      | .named => own

def firstEntityName : List TypeExpr → String
  | [] => "Entity"
  | t :: _ => t.entityName

end

def isVoidName (base : String) : Bool := base == "Void" || base == "void"

mutual

/-- Whether the type has no values, seen through wrappers without array suffixes. -/
def isVoid : TypeExpr → Bool
  | ⟨base, args, depth⟩ =>
    if depth == 0 && TypeFamily.of base == .wrapper then firstIsVoid args else isVoidName base

def firstIsVoid : List TypeExpr → Bool
  | [] => false
  | t :: _ => t.isVoid

end

end ApiCollection.Java.TypeExpr
