import ApiCollection.Dto.Basic
import ApiCollection.Java.MethodHead
import ApiCollection.Text.Reading

/-!
# Reading model classes

The name of a model class is that of the first class or record in its source text. Its fields are
the components of the first record, followed by the fields with an access modifier that are not
static. Logging fields are left out, and a repeated name keeps its first type.
-/

namespace ApiCollection.Dto

open Text

/-- Names of fields that carry no data. -/
def deniedNames : List String := ["serialVersionUID", "logger", "log", "LOG"]

def deniedTypes : List String := ["Logger", "Log"]

/-- Adds a field unless it carries no data or its name is present. -/
def addField (fields : List Field) (name type : List Char) : List Field :=
  let name := String.ofList name
  let base := (Java.TypeExpr.ofChars type).base
  if deniedNames.contains name || deniedTypes.contains base then fields
  else if fields.any (·.name == name) then fields
  else fields ++ [⟨name, String.ofList (trim type)⟩]

/-- The name behind `class` or `record`. -/
def declaredName? (cs : List Char) : Option (List Char) := do
  let (_, rest) ← keyword? ["class", "record"] cs
  return (← word? rest).1

/-- What follows type parameters without nesting, if the text begins with any. -/
def skipParameters? (cs : List Char) : Option (List Char) :=
  match afterChar? '<' cs with
  | none => some cs
  | some inside => afterChar? '>' (inside.dropWhile (· != '>'))

/-- The text between the parentheses of a record declaration, up to the first closing one. -/
def recordComponents? (cs : List Char) : Option (List Char) := do
  let (_, rest) ← keyword? ["record"] cs
  let (_, rest) ← word? rest
  let behind ← skipParameters? (trimStart rest)
  let inside ← afterChar? '(' (trimStart behind)
  let _ ← afterChar? ')' (inside.dropWhile (· != ')'))
  return inside.takeWhile (· != ')')

def afterDirective? (cs : List Char) : Option (List Char) := do
  let (_, rest) ← word? (← afterChar? '@' cs)
  let arguments := do
    let inside ← afterChar? '(' rest
    afterChar? ')' (inside.dropWhile (· != ')'))
  return arguments.getD rest

/-- The text with a blank in place of every directive. -/
def blankDirectives (cs : List Char) : List Char :=
  match cs with
  | [] => []
  | c :: tail => match afterDirective? (c :: tail) with
    | none => c :: blankDirectives tail
    | some rest =>
      if rest.length ≤ tail.length then ' ' :: blankDirectives rest
      else ' ' :: blankDirectives tail
termination_by cs.length

/-- Adds the field of a record component, if it has a type and a name. -/
def addComponent (fields : List Field) (component : List Char) : List Field :=
  match (words (blankDirectives component)).reverse with
  | name :: last :: before => addField fields name (joinWith [' '] (last :: before).reverse)
  | _ => fields

def accessModifiers : List String := ["private", "protected", "public"]

/-- A text without a keyword that it may begin with: first the text behind it, then the text
itself. -/
def maybeKeyword (keyword : String) (cs : List Char) : List (List Char) :=
  match keyword? [keyword] cs with
  | some (_, rest) => [rest, cs]
  | none => [cs]

/-- The texts behind the modifiers of a field. As many of them as possible are skipped first. -/
def modifierEnds (cs : List Char) : List (List Char) :=
  (maybeKeyword "static" cs).flatMap fun cs =>
    (maybeKeyword "final" cs).flatMap fun cs => maybeKeyword "static" cs

def skipSuffixes : List Char → List Char
  | '[' :: ']' :: rest => skipSuffixes rest
  | cs => cs

structure Declared where
  static : Bool
  type : List Char
  name : List Char

def nameBehind? (modifiers typeStart typeEnd : List Char) :
    Option (Declared × List Char) := do
  let suffixed := skipSuffixes typeEnd
  let (name, rest) ← word? (← afterBlanks? suffixed)
  match trimStart rest with
  | c :: rest =>
    if c == ';' || c == '=' then
      return (⟨occursIn "static".toList modifiers, textBefore typeStart suffixed, name⟩, rest)
    else none
  | [] => none

/-- Reads a field declaration behind its access modifier. -/
def declaredBehind? (cs typeStart : List Char) : Option (Declared × List Char) := do
  let (_, rest) ← dottedWord? typeStart
  let ends := match afterChar? '<' rest with
    | none => [rest]
    | some inside => Java.argumentEnds inside
  ends.findSome? (nameBehind? (textBefore cs typeStart) typeStart)

def declared? (cs : List Char) : Option (Declared × List Char) := do
  let (_, rest) ← keyword? accessModifiers cs
  (modifierEnds rest).findSome? (declaredBehind? rest)

/-- Reads a model class; a text without a class or record has none. -/
def ofSource? (source : List Char) (path : Option String) : Option Dto := do
  let name ← find? (fun _ cs => declaredName? cs) source
  let components := ((find? (fun _ cs => recordComponents? cs) source).map
    (Java.splitTopLevel ',')).getD []
  let declared := (sweep (fun _ cs => declared? cs) source).filter fun d => !d.static
  return {
    name := String.ofList name
    path := path
    fields := declared.foldl (fun fields d => addField fields d.name d.type)
      (components.foldl addComponent []) }

end ApiCollection.Dto
