import ApiCollection.Java.Parameter

/-!
# Package and class declarations

The first package declaration and the first class, interface or record declaration that begin
a line of a source text. Directives with plain argument lists may stand before the declaration
on its line.
-/

namespace ApiCollection.Java

open Text

/-- What a source text says about its type. -/
structure ClassHead where
  package : Option String
  /-- The declared name; `Unknown` when nothing is declared. -/
  name : String
  directives : List Directive
  deriving DecidableEq, Repr

def package? (prev : Option Char) (cs : List Char) : Option String := do
  guard (atLineStart prev)
  let behind ← after? "package".toList (trimStart cs)
  let (name, rest) ← dottedWord? (← afterBlanks? behind)
  let _ ← afterChar? ';' (trimStart rest)
  return String.ofList name

/-- What follows a directive whose argument list, if any, ends at the first closing parenthesis,
and the blanks behind it. -/
def afterPlainDirective? (cs : List Char) : Option (List Char) := do
  let (_, rest) ← dottedWord? (← afterChar? '@' cs)
  match afterChar? '(' rest with
  | none => afterBlanks? rest
  | some inside => afterBlanks? (← afterChar? ')' (inside.dropWhile (· != ')')))

/-- Skips as many occurrences of something as there are; each one has to be shorter than the
text that it is read from. -/
def skipAll (skip : List Char → Option (List Char)) (cs : List Char) : List Char :=
  match skip cs with
  | none => cs
  | some rest => if rest.length < cs.length then skipAll skip rest else cs
termination_by cs.length

def classModifiers : List String :=
  ["public", "protected", "private", "abstract", "final", "static", "sealed"]

def classKeywords : List String := ["class", "interface", "record"]

/-- A type declaration at the start of a line: its name, and the text from the declaration on. -/
def classDeclaration? (prev : Option Char) (cs : List Char) : Option (String × List Char) := do
  guard (atLineStart prev)
  let declaration := skipAll afterPlainDirective? (cs.dropWhile isTabOrSpace)
  let behind := skipAll (fun cs => (keyword? classModifiers cs).map (·.2)) declaration
  let (_, rest) ← keyword? classKeywords behind
  let (name, _) ← word? rest
  return (String.ofList name, declaration)

/-- The package, the declared name and the directives of the declaration. -/
def ClassHead.of (cs : List Char) : ClassHead :=
  let package := find? package? cs
  match find? classDeclaration? cs with
  | none => ⟨package, "Unknown", []⟩
  | some (name, declaration) => ⟨package, name, directivesAbove (textBefore cs declaration)⟩

end ApiCollection.Java
