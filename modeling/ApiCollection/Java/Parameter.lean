import ApiCollection.Java.Nesting
import ApiCollection.Text.Reading

/-!
# Directives and parameters

A directive is an annotation such as `@GetMapping("/users")`: a name with an optional argument
list. A scan cuts a text into directives and the gaps between them, so that no character of the
text is lost. The block of directives above a declaration is collected line by line, upwards.

A parameter list is cut at its top-level commas. The last word of a parameter is its name, the
words before it are its type; directives and `final` belong to neither.
-/

namespace ApiCollection.Java

open Text

/-- One annotation of a declaration. -/
structure Directive where
  /-- The simple name, without qualifier. -/
  name : String
  /-- The trimmed text between the parentheses, if there are any. -/
  args : Option String
  /-- The directive as written. -/
  raw : String
  deriving DecidableEq, Repr

/-- A text cut into directives, each with the gap before it, and the gap behind the last one. -/
structure DirectiveScan where
  found : List (List Char × Directive)
  rest : List Char

namespace DirectiveScan

def prepend (gap : List Char) (s : DirectiveScan) : DirectiveScan :=
  match s.found with
  | [] => { s with rest := gap ++ s.rest }
  | (first, d) :: found => { s with found := (gap ++ first, d) :: found }

def cons (d : Directive) (s : DirectiveScan) : DirectiveScan :=
  { s with found := ([], d) :: s.found }

/-- The text with every directive replaced by a blank. -/
def blanked (s : DirectiveScan) : List Char :=
  s.found.flatMap (fun (gap, _) => gap ++ [' ']) ++ s.rest

end DirectiveScan

def isNameChar (c : Char) : Bool := isAsciiAlphanumeric c || c == '_' || c == '.'

/-- The argument list that a text begins with: its inside, the text as written and what follows.
An argument list that is never closed is none. -/
def argumentList? (cs : List Char) : Option (List Char × List Char × List Char) :=
  match cs.dropWhile isAsciiBlank with
  | '(' :: behind => (insideParens? behind).map fun (inside, rest) =>
    (inside, cs.takeWhile isAsciiBlank ++ '(' :: inside ++ [')'], rest)
  | _ => none

/-- What is left of the text behind an argument list, or all of it when there is none. -/
def afterArguments (cs : List Char) : List Char :=
  (argumentList? cs).elim cs fun (_, _, rest) => rest

/-- The directive with a qualified name that is followed by the text `cs`. A name that is empty
or begins an interface declaration of annotations is no directive. -/
def directiveNamed? (qualified cs : List Char) : Option Directive :=
  let name := lastPiece '.' qualified
  if name.isEmpty || name == "interface".toList then none
  else
    let arguments := argumentList? cs
    some {
      name := String.ofList name
      args := arguments.map fun (inside, _, _) => String.ofList (trim inside)
      raw := String.ofList ('@' :: qualified ++ arguments.elim [] fun (_, written, _) => written) }

theorem length_afterArguments_le (cs : List Char) :
    (afterArguments cs).length ≤ cs.length := by
  unfold afterArguments argumentList?
  split
  · rename_i behind h
    cases hi : insideParens? behind with
    | none => simp
    | some pair =>
      obtain ⟨inside, rest⟩ := pair
      have h₁ := congrArg List.length (eq_append_of_insideParens? hi)
      have h₂ := length_dropWhile_le isAsciiBlank cs
      simp only [h, List.length_append, List.length_cons] at h₁ h₂
      simp only [Option.map_some, Option.elim_some]
      omega
  · simp

/-- Cuts a text at its directives. Literals outside of directives are skipped over. -/
def DirectiveScan.of (cs : List Char) : DirectiveScan :=
  match cs with
  | [] => ⟨[], []⟩
  | c :: cs =>
    if c == '"' || c == '\'' then
      (of (splitLiteral c cs).2).prepend (c :: (splitLiteral c cs).1)
    else if c == '@' then
      let qualified := cs.takeWhile isNameChar
      let behind := cs.dropWhile isNameChar
      match directiveNamed? qualified behind with
      | none => (of behind).prepend (c :: qualified)
      | some d => (of (afterArguments behind)).cons d
    else (of cs).prepend [c]
termination_by cs.length
decreasing_by
  · have := length_splitLiteral_le c cs
    simp only [List.length_cons]
    omega
  · have := length_dropWhile_le isNameChar cs
    simp only [List.length_cons]
    omega
  · have h₁ := length_afterArguments_le (cs.dropWhile isNameChar)
    have h₂ := length_dropWhile_le isNameChar cs
    simp only [List.length_cons]
    omega
  · simp

/-- The directives of a text, in order. -/
def directives (cs : List Char) : List Directive := (DirectiveScan.of cs).found.map (·.2)

namespace Directive

/-- The text of `key = "…"` at a word boundary, also with a brace before the quote. -/
def assigned? (key : List Char) (prev : Option Char) (cs : List Char) : Option String := do
  guard (isBoundary prev)
  let behind ← after? key cs
  let value ← afterEquals? behind
  let (text, _) ← quoted? (skipBrace value)
  return String.ofList text

/-- The first positional argument that is a string or a list, with a text in it. -/
def positional? (args : List Char) : Option String := do
  let arg ← ((splitTopLevel ',' args).map trim).find? fun arg =>
    startsWith ['"'] arg || startsWith ['\x7b'] arg
  let (text, _) ← find? (fun _ cs => quoted? cs) arg
  return String.ofList text

/-- The primary text of a directive: that of `value`, else the first positional one, else that
of `path`. -/
def value (d : Directive) : Option String := do
  let args ← d.args
  let args := trim args.toList
  find? (assigned? "value".toList) args <|> positional? args <|>
    find? (assigned? "path".toList) args

/-- The text of the first argument `key = …`, without quotes. -/
def argument (d : Directive) (key : String) : Option String := do
  let args ← d.args
  (splitTopLevel ',' args.toList).findSome? fun arg => do
    let (left, right) ← cutAtChar? '=' arg
    guard (String.ofList (trim left) == key)
    return String.ofList (trimMatches (· == '"') (trim right))

end Directive

def isCommentLine (line : List Char) : Bool :=
  startsWith "//".toList line || startsWith "/*".toList line || startsWith ['*'] line ||
    endsWith "*/".toList line

/-- Walks upwards over the lines above a declaration. `pending` holds the lines of a directive
whose argument list began further up, `blocks` the directives found so far. Ordinary code ends
the walk. -/
def blocksAbove (pending blocks : List (List Char)) : List (List Char) → List (List Char)
  | [] => blocks
  | line :: above =>
    let line := trim line
    if pending.isEmpty && (line.isEmpty || isCommentLine line) then
      blocksAbove pending blocks above
    else
      let joined := joinWith [' '] (line :: pending)
      if startsWith ['@'] line then
        if parenBalance joined ≤ 0 then blocksAbove [] (joined :: blocks) above
        else blocksAbove (line :: pending) blocks above
      else if 0 ≤ parenBalance joined then blocks
      else blocksAbove (line :: pending) blocks above

/-- The directives that belong to a declaration, for the text before it: those on the line of
the declaration and those of the block above it. -/
def directivesAbove (before : List Char) : List Directive :=
  let reversed := before.reverse
  let own := trim (reversed.takeWhile (· != '\n')).reverse
  let above := (reversed.dropWhile (· != '\n')).tail.reverse
  let blocks := if own.isEmpty then [] else [own]
  (blocksAbove [] blocks (lines above).reverse).flatMap directives

/-- The directives of the declaration at a byte of a text; none when the byte is inside of a
character. A place behind the end counts as the end. -/
def directivesAt? (text : String) (offset : Nat) : Option (List Directive) :=
  let (before, rest) := cutAtByte offset text.toList
  if rest.isEmpty || byteLength before == offset then some (directivesAbove before) else none

structure Parameter where
  name : String
  type : String
  directives : List Directive
  deriving DecidableEq, Repr

/-- Reads one parameter; a piece without both a type and a name is none. -/
def Parameter.read? (piece : List Char) : Option Parameter :=
  let scan := DirectiveScan.of (trim piece)
  let tokens := (words scan.blanked).filter (· != "final".toList)
  match tokens.reverse with
  | name :: last :: before => some {
      name := String.ofList name
      type := String.ofList (joinWith [' '] (last :: before).reverse)
      directives := scan.found.map (·.2) }
  | _ => none

def parameters (cs : List Char) : List Parameter :=
  (splitTopLevel ',' cs).filterMap Parameter.read?

end ApiCollection.Java
