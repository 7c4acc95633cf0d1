import ApiCollection.Pattern.Expression
import ApiCollection.Text.Reading

/-!
# Single characters and escapes of an expression

What stands behind a backslash is a character, a set of characters or an assertion. The readers
take the switches that are in force; with the switch `verbose`, blanks and comments may stand
between any two characters.
-/

namespace ApiCollection.Pattern

open Text

/-- The switches that letters behind a question mark turn on and off. -/
structure Switches where
  caseless : Bool := false
  multiline : Bool := false
  dotAll : Bool := false
  returns : Bool := false
  verbose : Bool := false
  unicode : Bool := true
  deriving DecidableEq, Repr

/-- What one escape or one plain character stands for. -/
inductive Atom where
  | char (c : Char)
  | set (set : CharSet)
  | assertion (condition : Assertion)

namespace Switches

/-- Skips blanks and comments, a comment reaching from a number sign to the end of its line. -/
def skipNotes (inComment : Bool) : List Char → List Char
  | [] => []
  | c :: cs =>
    if inComment then skipNotes (c != '\n') cs
    else if isBlank c then skipNotes false cs
    else if c == '#' then skipNotes true cs
    else c :: cs

/-- What follows, behind blanks and comments if the switches allow them. -/
def skip (s : Switches) (cs : List Char) : List Char := if s.verbose then skipNotes false cs else cs

/-- A set as it is meant under the switches for case and script; without Unicode it must hold ASCII
characters only. -/
def setOf? (s : Switches) (negated : Bool) (set : CharSet) : Option CharSet :=
  let folded := if !s.caseless then set
    else if s.unicode then set.caseless else set.caselessAscii
  let meant := folded.negatedIf negated
  if s.unicode || meant.avoidsHighBytes then some meant else none

/-- The character itself, unless only ASCII characters are admitted. -/
def charOf? (s : Switches) (c : Char) : Option Char :=
  if s.unicode || c.toNat < 128 then some c else none

end Switches

export Text (hexDigit?)

def charAt? (n : Nat) : Option Char := if n.isValidChar then some (Char.ofNat n) else none

/-- A number of hexadecimal digits, possibly apart. -/
def hexDigits? (s : Switches) (value : Nat) : Nat → List Char → Option (Nat × List Char)
  | 0, cs => some (value, cs)
  | n + 1, cs => match cs with
    | [] => none
    | c :: rest => do hexDigits? s (value * 16 + (← hexDigit? c)) n (s.skip rest)

/-- Hexadecimal digits up to a closing brace. -/
def bracedHex? (s : Switches) (value : Option Nat) : Nat → List Char → Option (Nat × List Char)
  | 0, _ => none
  | n + 1, cs => match s.skip cs with
    | [] => none
    | '}' :: rest => value.map fun v => (v, rest)
    | c :: rest => do bracedHex? s (some ((value.getD 0) * 16 + (← hexDigit? c))) n rest

/-- The code point that hexadecimal digits give, in braces or as many as the letter asks for. -/
def codePoint? (s : Switches) (digits : Nat) (cs : List Char) : Option (Char × List Char) :=
  match s.skip cs with
  | '{' :: rest => do
    let (n, rest) ← bracedHex? s none (rest.length + 1) rest
    return (← charAt? n, s.skip rest)
  | cs => do
    let (n, rest) ← hexDigits? s 0 digits cs
    return (← charAt? n, rest)

def bracedName? (s : Switches) : Nat → List Char → Option (List Char × List Char)
  | 0, _ => none
  | n + 1, cs => match s.skip cs with
    | [] => none
    | '}' :: rest => some ([], rest)
    | c :: rest => (bracedName? s n rest).map fun (name, rest) => (c :: name, rest)

/-- The set of a property, named by one letter or in braces. -/
def propertySet? (s : Switches) (negated : Bool) (cs : List Char) :
    Option (CharSet × List Char) := do
  if !s.unicode then none
  let (name, rest) ← match s.skip cs with
    | '{' :: rest => bracedName? s (rest.length + 1) rest
    | '\\' :: _ => none
    | [] => none
    | c :: rest => some ([c], s.skip rest)
  return (← s.setOf? negated (← CharSet.property? name), rest)

/-- The letters and hyphens of a name, possibly apart. -/
def boundaryName (s : Switches) : Nat → List Char → List Char × List Char
  | 0, cs => ([], cs)
  | n + 1, cs => match cs with
    | [] => ([], [])
    | c :: rest =>
      if c.isAlpha || c == '-' then
        let (name, rest) := boundaryName s n (s.skip rest)
        (c :: name, rest)
      else ([], cs)

/-- The word boundary that a `b` stands for. A name in braces asks for one side of it; braces that
do not begin with a letter or a hyphen do not belong to it. -/
def boundary? (s : Switches) : List Char → Option (Assertion × List Char)
  | '{' :: rest =>
    match s.skip rest with
    | [] => none
    | c :: _ =>
      if c.isAlpha || c == '-' then
        match boundaryName s rest.length (s.skip rest) with
        | (name, '}' :: rest) => (named? (String.ofList name)).map fun b => (b, rest)
        | _ => none
      else some (.wordBoundary s.unicode, '{' :: rest)
  | cs => some (.wordBoundary s.unicode, cs)
where
  named? : String → Option Assertion
    | "start" => some (.wordStart s.unicode)
    | "end" => some (.wordEnd s.unicode)
    | "start-half" => some (.wordStartHalf s.unicode)
    | "end-half" => some (.wordEndHalf s.unicode)
    | _ => none

def controlChar? : Char → Option Char
  | 'a' => some '\x07'
  | 'f' => some '\x0c'
  | 't' => some '\t'
  | 'n' => some '\n'
  | 'r' => some '\r'
  | 'v' => some '\x0b'
  | _ => none

def isEscapable (c : Char) : Bool :=
  c.toNat < 128 && !c.isAlphanum && c != '<' && c != '>'

def escape? (s : Switches) : List Char → Option (Atom × List Char)
  | [] => none
  | c :: rest =>
    let char (found : Char × List Char) : Option (Atom × List Char) :=
      (s.charOf? found.1).map fun c => (.char c, found.2)
    let condition (a : Assertion) : Option (Atom × List Char) := some (.assertion a, rest)
    match c with
    | 'x' => (codePoint? s 2 rest).bind char
    | 'u' => (codePoint? s 4 rest).bind char
    | 'U' => (codePoint? s 8 rest).bind char
    | 'p' => (propertySet? s false rest).map fun (set, rest) => (.set set, rest)
    | 'P' => (propertySet? s true rest).map fun (set, rest) => (.set set, rest)
    | 'A' => condition .textStart
    | 'z' => condition .textEnd
    | 'b' => (boundary? s rest).map fun (a, rest) => (.assertion a, rest)
    | 'B' => condition (.noWordBoundary s.unicode)
    | '<' => condition (.wordStart s.unicode)
    | '>' => condition (.wordEnd s.unicode)
    | c =>
      if isEscapable c then some (.char c, rest)
      else match controlChar? c, CharSet.short? s.unicode c with
        | some d, _ => some (.char d, rest)
        | none, some set =>
          if s.unicode || set.avoidsHighBytes then some (.set set, rest) else none
        | none, none => none

end ApiCollection.Pattern
