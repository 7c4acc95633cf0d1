import ApiCollection.Text.CasingTable
import ApiCollection.Text.Chars

/-!
# Case

Small and capital images of texts. A character may have an image of several characters, and
a capital sigma at the end of a word has a small image of its own.

Two characters are variants of each other when the small images of their capital images agree.
Only images of a single character count. The dotless i and the dotted capital I have no variants.

An identifier is cut into words at every character that is not alphanumeric, where a small
letter is followed by a capital one, and before the last capital letter of a run that goes on
with a small letter. In title case every word begins with a capital letter and goes on in small
ones.
-/

namespace ApiCollection.Text

def lowerChar (c : Char) : List Char :=
  if c.toNat < 128 then [c.toLower]
  else if c.toNat == 0x130 then ['i', '\u0307']
  else match lowerRuns.image? c.toNat with
    | some n => [Char.ofNat n]
    | none => [c]

def upperChar (c : Char) : List Char :=
  if c.toNat < 128 then [c.toUpper]
  else match upperRuns.image? c.toNat with
    | some n => [Char.ofNat n]
    | none => match upperExpansions.find? fun e => e.1 == c.toNat with
      | some e => e.2.map Char.ofNat
      | none => [c]

def startsCased (cs : List Char) : Bool :=
  match cs.dropWhile isCaseIgnorable with
  | [] => false
  | c :: _ => isCased c

/-- Lower-cases `after`, the part of a text that follows `before` (last character first).
A capital sigma is final when a cased letter precedes it and none follows. -/
def lowerFrom (before : List Char) : List Char → List Char
  | [] => []
  | c :: after =>
    let image :=
      if c == 'Σ' then
        if startsCased before && !startsCased after then ['ς'] else ['σ']
      else lowerChar c
    image ++ lowerFrom (c :: before) after

def lower (cs : List Char) : List Char := lowerFrom [] cs

def upper (cs : List Char) : List Char := cs.flatMap upperChar

def uppercase (s : String) : String := String.ofList (upper s.toList)

def asciiLowercase (s : String) : String := String.ofList (s.toList.map Char.toLower)

/-- Equality of strings up to the case of ASCII letters. -/
def equalIgnoringCase (a b : String) : Bool := asciiLowercase a == asciiLowercase b

/-- One character under simple case folding, for comparison with ASCII words: the long s and
the Kelvin sign fold to letters of ASCII. -/
def foldChar (c : Char) : Char :=
  if c == 'ſ' then 's' else if c == '\u212a' then 'k' else c.toLower

/-- The image of a character when it is a single character, and the character otherwise. -/
def singleImage (image : Char → List Char) (c : Char) : Char :=
  match image c with
  | [d] => d
  | _ => c

/-- The character that stands for all variants of a character. -/
def fold (c : Char) : Char :=
  if c == '\u0131' || c == '\u0130' then c
  else singleImage lowerChar (singleImage upperChar c)

/-- The code points that some run moves to a code point. -/
def CaseRuns.sources (table : CaseRuns) (n : Nat) : List Nat :=
  table.toList.filterMap fun (first, last, step, move) =>
    let source := (n - move : Int).toNat
    if first ≤ source && source ≤ last && (source - first) % step == 0 then some source else none

/-- The characters that differ from a character at most by case. -/
def caseVariants (c : Char) : List Char :=
  let base := fold c
  let capitals := base.toNat :: base.toUpper.toNat :: lowerRuns.sources base.toNat
  let candidates := capitals ++ capitals.flatMap upperRuns.sources
  (candidates.map Char.ofNat).filter fun d => fold d == base

/-- The kind of letter that a word has last shown. -/
inductive WordMode where
  | start
  | small
  | capital
  deriving DecidableEq, Repr

/-- The mode behind one more character; a character without case does not change it. -/
def WordMode.next (mode : WordMode) (c : Char) : WordMode :=
  if isLowercase c then .small else if isUppercase c then .capital else mode

/-- Cuts a run of alphanumeric characters into words. `word` holds the characters of the word
that is being read, the last one first. -/
def casedWords (mode : WordMode) (word : List Char) : List Char → List (List Char)
  | [] => if word.isEmpty then [] else [word.reverse]
  | [c] => [(c :: word).reverse]
  | c :: d :: rest =>
    if mode.next c == .small && isUppercase d then
      (c :: word).reverse :: casedWords .start [] (d :: rest)
    else if mode == .capital && isUppercase c && isLowercase d then
      word.reverse :: casedWords .start [c] (d :: rest)
    else casedWords (mode.next c) (c :: word) (d :: rest)

def identifierWords (cs : List Char) : List (List Char) :=
  (splitWhere (fun c => !isAlphanumeric c) cs).flatMap (casedWords .start [])

/-- Small letters, with a final sigma at the very end. -/
def lowerWord : List Char → List Char
  | [] => []
  | [c] => if c == 'Σ' then ['ς'] else lowerChar c
  | c :: rest => lowerChar c ++ lowerWord rest

/-- A word with a capital first letter and small ones behind it. -/
def capitalize : List Char → List Char
  | [] => []
  | c :: rest => upperChar c ++ lowerWord rest

/-- The words of an identifier, capitalized and with single blanks between them. -/
def titleCase (s : String) : String :=
  String.ofList (joinWith [' '] ((identifierWords s.toList).map capitalize))

end ApiCollection.Text
