import ApiCollection.Java.Parameter

/-!
# Method heads

A sweep over a source text finds everything that looks like `Type name(`. A candidate is a
method head when its words are no statement, when its parameter list is closed and when a body,
a semicolon or a `throws` clause follows.
-/

namespace ApiCollection.Java

open Text

/-- A method declaration, with its parameter list as written. -/
structure MethodHead where
  name : String
  returnType : String
  /-- The trimmed text between the parentheses. -/
  parameters : String
  directives : List Directive
  /-- The byte at which the declaration begins. -/
  offset : Nat
  /-- The line on which it begins, counted from one. -/
  line : Nat
  deriving DecidableEq, Repr

def methodModifiers : List String :=
  ["public", "private", "protected", "static", "final", "synchronized", "abstract", "default",
    "native"]

/-- Words that stand before `name(` in statements and type declarations. -/
def statementWords : List String :=
  ["return", "new", "throw", "else", "case", "yield", "await", "assert", "record", "class"]

/-- Words of control flow that look like method names. -/
def controlWords : List String :=
  ["if", "for", "while", "switch", "catch", "synchronized", "try"]

/-- Something that looks like a method head. -/
structure Candidate where
  /-- The text from its first character on. -/
  start : List Char
  returnType : List Char
  name : List Char
  /-- The text behind the opening parenthesis. -/
  behind : List Char

/-- The texts behind no modifier, one modifier, two modifiers and so on, the longest run first. -/
def modifierRuns (cs : List Char) : List (List Char) :=
  match keyword? methodModifiers cs with
  | none => [cs]
  | some (_, rest) =>
    if rest.length < cs.length then modifierRuns rest ++ [cs] else [cs]
termination_by cs.length

/-- The characters that cannot stand in a list of type parameters. -/
def endsTypeParameters (c : Char) : Bool :=
  c == ';' || c == '\x7b' || c == '\x7d' || c == '(' || c == ')'

/-- What follows the rest of a list of type parameters with angle brackets nested once at most.
`nested` says whether an inner bracket is open. -/
def afterTypeParameters? (nested : Bool) : List Char → Option (List Char)
  | [] => none
  | c :: cs =>
    if endsTypeParameters c then none
    else if c == '<' then if nested then none else afterTypeParameters? true cs
    else if c == '>' then if nested then afterTypeParameters? false cs else some cs
    else afterTypeParameters? nested cs

def skipTypeParameters? (cs : List Char) : Option (List Char) :=
  match afterChar? '<' cs with
  | none => some cs
  | some inside => (afterTypeParameters? false inside).bind afterBlanks?

def endsArguments (c : Char) : Bool := endsTypeParameters c || c == '='

/-- The texts behind each `>` of the arguments of a type, the last one first. -/
def argumentEnds : List Char → List (List Char)
  | [] => []
  | c :: cs =>
    if endsArguments c then []
    else if c == '>' then argumentEnds cs ++ [cs]
    else argumentEnds cs

/-- The texts behind a type name and the arguments that may follow it. -/
def typeEnds (cs : List Char) : List (List Char) :=
  match afterChar? '<' (trimStart cs) with
  | none => [cs]
  | some inside => argumentEnds inside

def afterArraySuffix? (cs : List Char) : Option (List Char) :=
  after? "[]".toList (trimStart cs)

def skipArraySuffixes (cs : List Char) : List Char :=
  match afterArraySuffix? cs with
  | none => cs
  | some rest => if rest.length < cs.length then skipArraySuffixes rest else cs
termination_by cs.length

/-- Reads the name and the opening parenthesis behind a return type that ends at `typeEnd`. -/
def nameBehind? (start typeStart typeEnd : List Char) : Option Candidate := do
  let suffixed := skipArraySuffixes typeEnd
  let (name, rest) ← word? (← afterBlanks? suffixed)
  let behind ← afterChar? '(' (trimStart rest)
  return ⟨start, textBefore typeStart suffixed, name, behind⟩

def behindModifiers? (start cs : List Char) : Option Candidate := do
  let typeStart ← skipTypeParameters? cs
  let (_, rest) ← dottedWord? typeStart
  (typeEnds rest).findSome? (nameBehind? start typeStart)

/-- The candidate that begins a text. As many words as possible are taken for modifiers. -/
def candidate? (cs : List Char) : Option Candidate :=
  (modifierRuns cs).findSome? (behindModifiers? cs)

/-- Whether a candidate behind that character begins in the middle of a word. -/
def insideWord (prev : Option Char) : Bool :=
  prev.any fun c => isAlphanumeric c || c == '_' || c == '.' || c == '@'

/-- Whether the words of a candidate belong to a statement or to a constructor. -/
def Candidate.isStatement (c : Candidate) : Bool :=
  let type := String.ofList (trim c.returnType)
  statementWords.contains type || methodModifiers.contains type ||
    controlWords.contains (String.ofList c.name) || controlWords.contains type

/-- Whether a text continues a method head behind its parameter list. -/
def continuesHead (cs : List Char) : Bool :=
  let cs := trimStart cs
  startsWith ['\x7b'] cs || startsWith [';'] cs || startsWith "throws".toList cs

def Candidate.head? (source : List Char) (prev : Option Char) (c : Candidate) :
    Option MethodHead := do
  guard (!insideWord prev && !c.isStatement)
  let (parameters, rest) ← insideParens? c.behind
  guard (continuesHead rest)
  let before := textBefore source c.start
  return {
    name := String.ofList c.name
    returnType := String.ofList (squeezeBlanks c.returnType)
    parameters := String.ofList (trim parameters)
    directives := directivesAbove before
    offset := byteLength before
    line := before.count '\n' + 1 }

/-- The method heads of a source text, in order. A candidate that is no head is passed over. -/
def methodHeads (source : List Char) : List MethodHead :=
  (sweep (fun prev cs => (candidate? cs).map fun c => ((prev, c), c.behind)) source).filterMap
    fun (prev, c) => c.head? source prev

end ApiCollection.Java
