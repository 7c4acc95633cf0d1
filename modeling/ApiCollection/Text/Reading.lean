import ApiCollection.Text.Chars

/-!
# Readers

A reader looks at the text from a place on and the character before that place. When it
recognises the text it gives a value and the rest. This module holds the small readers that
larger ones are put together from, the search for the first place that a reader recognises, and
the sweep over all of them.
-/

namespace ApiCollection.Text

/-- What follows at least one blank character, all of them skipped. -/
def afterBlanks? (cs : List Char) : Option (List Char) :=
  if cs.head?.any isBlank then some (trimStart cs) else none

def afterChar? (c : Char) (cs : List Char) : Option (List Char) :=
  match cs with
  | d :: rest => if d == c then some rest else none
  | [] => none

/-- A run of at least one character of a class, taken as long as possible. -/
def run? (p : Char → Bool) (cs : List Char) : Option (List Char × List Char) :=
  if cs.head?.any p then some (cs.takeWhile p, cs.dropWhile p) else none

def word? (cs : List Char) : Option (List Char × List Char) := run? isWordChar cs

def dottedWord? (cs : List Char) : Option (List Char × List Char) :=
  run? (fun c => isWordChar c || c == '.') cs

/-- The first of several words that the text begins with, with at least one blank behind it. -/
def keyword? (keywords : List String) (cs : List Char) : Option (String × List Char) :=
  keywords.findSome? fun word =>
    ((after? word.toList cs).bind afterBlanks?).map fun rest => (word, rest)

/-- A text in double quotes that is not empty and holds no quote. -/
def quoted? (cs : List Char) : Option (List Char × List Char) := do
  let behind ← afterChar? '"' cs
  let inside := behind.takeWhile (· != '"')
  let rest ← afterChar? '"' (behind.dropWhile (· != '"'))
  if inside.isEmpty then none else some (inside, rest)

/-- What follows an equals sign with blanks on both sides. -/
def afterEquals? (cs : List Char) : Option (List Char) :=
  (afterChar? '=' (trimStart cs)).map trimStart

/-- The text without one opening brace and the blanks behind it. -/
def skipBrace (cs : List Char) : List Char :=
  match afterChar? '\x7b' cs with
  | some rest => trimStart rest
  | none => cs

/-- A character is a boundary for a word that begins behind it when it is no word character. -/
def isBoundary (prev : Option Char) : Bool := !prev.any isWordChar

/-- The value at the first place that a reader recognises. -/
def findFrom (read : Option Char → List Char → Option α) (prev : Option Char) :
    List Char → Option α
  | [] => read prev []
  | c :: cs => match read prev (c :: cs) with
    | some a => some a
    | none => findFrom read (some c) cs

/-- The value at the first place of a text that a reader recognises. -/
def find? (read : Option Char → List Char → Option α) (cs : List Char) : Option α :=
  findFrom read none cs

/-- The values at the places that a reader recognises, from left to right and without overlap. -/
def sweepFrom (read : Option Char → List Char → Option (α × List Char)) (prev : Option Char)
    (cs : List Char) : List α :=
  match cs with
  | [] => []
  | c :: tail => match read prev (c :: tail) with
    | none => sweepFrom read (some c) tail
    | some (a, rest) =>
      if rest.length ≤ tail.length then
        a :: sweepFrom read ((c :: tail)[tail.length - rest.length]?) rest
      else a :: sweepFrom read (some c) tail
termination_by cs.length

/-- The values at all places of a text that a reader recognises. -/
def sweep (read : Option Char → List Char → Option (α × List Char)) (cs : List Char) : List α :=
  sweepFrom read none cs

def textBefore (cs ending : List Char) : List Char := cs.take (cs.length - ending.length)

def atLineStart (prev : Option Char) : Bool := prev.all (· == '\n')

end ApiCollection.Text
