import ApiCollection.Yaml.ScalarText

/-!
# Tokens of YAML

Indentation becomes tokens that open and close block collections. A key on one line is found out
only at its colon: the place of every token that might begin such a key is kept, and at the colon
the key token is put in before it.
-/

namespace ApiCollection.Yaml

/-- A tag as it is written: a handle, empty when there is none, and a suffix. -/
structure WrittenTag where
  handle : String
  suffix : String
  deriving DecidableEq, Repr

inductive Token where
  | versionDirective (major minor : Nat)
  | tagDirective (handle start : String)
  | documentStart
  | documentEnd
  | blockSequence
  | blockMapping
  | blockEnd
  | flowSequence
  | flowSequenceEnd
  | flowMapping
  | flowMappingEnd
  | blockEntry
  | flowEntry
  | key
  | value
  | alias (name : String)
  | anchor (name : String)
  | tag (t : WrittenTag)
  | scalar (text : String) (plain : Bool)
  deriving DecidableEq, Repr

def isNameChar (c : Char) : Bool := c.isAlphanum || c == '_' || c == '-'

def readName (c : Cursor) : Option (String × Cursor) :=
  let name := c.rest.takeWhile isNameChar
  let c := c.skip name.length
  let ends := c.gapAt 0 || c.rest.head?.any "?:,]\x7d%@\x60".toList.contains
  if name.isEmpty || !ends then none else some (String.ofList name, c)

/-- Whether a character can stand in the suffix of a tag. Only between angle brackets commas and
square brackets can. -/
def isTagChar (verbatim : Bool) (c : Char) : Bool :=
  isNameChar c || ";/?:@&=+$.%!~*'()".toList.contains c ||
    (verbatim && (c == ',' || c == '[' || c == ']'))

/-- The bytes of characters that are written as percent signs with two digits each. -/
def percentBytes : List Char → Option (List UInt8)
  | [] => some []
  | '%' :: a :: b :: rest => do
    let byte ← Scalar.digits? 16 [a, b]
    return byte.toUInt8 :: (← percentBytes rest)
  | c :: rest =>
    if c == '%' then none else (percentBytes rest).map (c.toNat.toUInt8 :: ·)

/-- Reads the suffix of a tag. Escapes have to give well-formed text. -/
def readSuffix (verbatim : Bool) (c : Cursor) : Option (String × Cursor) := do
  let written := c.rest.takeWhile (isTagChar verbatim)
  let bytes ← percentBytes written
  let text ← String.fromUTF8? ⟨bytes.toArray⟩
  return (text, c.skip written.length)

/-- The exclamation mark and the name behind it, with a second mark if there is one. -/
def handleText (cs : List Char) : List Char :=
  let name := (cs.drop 1).takeWhile isNameChar
  '!' :: name ++ if (cs.drop (name.length + 1)).head? == some '!' then ['!'] else []

def readTag (flow : Bool) (c : Cursor) : Option (WrittenTag × Cursor) := do
  let (tag, c) ←
    if c.rest[1]? == some '<' then do
      let (suffix, c) ← readSuffix true (c.skip 2)
      if suffix.isEmpty || !c.sees ['>'] then none
      else some (⟨"", suffix⟩, c.skip 1)
    else do
      let handle := handleText c.rest
      let (suffix, c) ← readSuffix false (c.skip handle.length)
      if handle.length > 1 && handle.getLast? == some '!' then
        if suffix.isEmpty then none else some (⟨String.ofList handle, suffix⟩, c)
      else
        let suffix := String.ofList (handle.drop 1) ++ suffix
        some (if suffix.isEmpty then ⟨"", "!"⟩ else ⟨"!", suffix⟩, c)
  if c.gapAt 0 || (flow && c.sees [',']) then some (tag, c) else none

def readVersionNumber (c : Cursor) : Option (Nat × Cursor) :=
  let digits := c.rest.takeWhile Char.isDigit
  if digits.length > 9 then none
  else (Scalar.digits? 10 digits).map fun n => (n, c.skip digits.length)

def readDirective (c : Cursor) : Option (Token × Cursor) := do
  let name := (c.rest.drop 1).takeWhile isNameChar
  let c := c.skip (name.length + 1)
  if !c.gapAt 0 then none
  else
    let c := c.skipWhile isBlank
    let (token, c) ←
      if name == "YAML".toList then do
        let (major, c) ← readVersionNumber c
        if !c.sees ['.'] then none
        else
          let (minor, c) ← readVersionNumber (c.skip 1)
          some (Token.versionDirective major minor, c)
      else if name == "TAG".toList then do
        let handle := handleText c.rest
        if !c.sees ['!'] || (handle.length > 1 && handle.getLast? != some '!') then none
        else
          let c := c.skip handle.length
          if !c.rest.head?.any isBlank then none
          else
            let (start, c) ← readSuffix true (c.skipWhile isBlank)
            if start.isEmpty || !c.gapAt 0 then none
            else some (Token.tagDirective (String.ofList handle) start, c)
      else none
    return (token, ← c.endOfLine?)

/-- A token that might begin a key: how many tokens precede it, and its place. -/
structure PossibleKey where
  position : Nat
  place : Place
  /-- Whether it has to be a key, because it begins a line of a mapping. -/
  needed : Bool
  deriving DecidableEq, Repr

/-- What is known while a text is cut into tokens. -/
structure Lexer where
  cursor : Cursor
  /-- The tokens, last one first. -/
  tokens : List Token := []
  count : Nat := 0
  /-- The column of the innermost block collection. -/
  indent : Int := -1
  /-- The columns around it. -/
  indents : List Int := []
  /-- The possible key of each flow collection that is open, the innermost first. -/
  keys : List (Option PossibleKey) := []
  /-- The possible key outside of flow collections. -/
  blockKey : Option PossibleKey := none
  /-- Whether a key may begin here. -/
  keyAllowed : Bool := true

namespace Lexer

def inFlow (l : Lexer) : Bool := !l.keys.isEmpty

def possibleKey (l : Lexer) : Option PossibleKey :=
  match l.keys with
  | key :: _ => key
  | [] => l.blockKey

def setKey (l : Lexer) (key : Option PossibleKey) : Lexer :=
  match l.keys with
  | _ :: rest => { l with keys := key :: rest }
  | [] => { l with blockKey := key }

def emit (l : Lexer) (t : Token) : Lexer :=
  { l with tokens := t :: l.tokens, count := l.count + 1 }

def insert (l : Lexer) (position : Nat) (t : Token) : Lexer :=
  let behind := l.count - position
  { l with
    tokens := l.tokens.take behind ++ t :: l.tokens.drop behind, count := l.count + 1 }

def closeBlocks (column : Int) (l : Lexer) : Lexer :=
  if l.inFlow then l
  else
    let rec close (indent : Int) : List Int → Lexer → Lexer
      | [], l => { l with indent := indent, indents := [] }
      | outer :: outers, l =>
        if column < indent then close outer outers (l.emit .blockEnd)
        else { l with indent := indent, indents := outer :: outers }
    close l.indent l.indents l

/-- Opens a block collection in a column that is further in, before the token of a position. -/
def openBlock (l : Lexer) (column : Nat) (position : Nat) (t : Token) : Lexer :=
  if l.inFlow || (column : Int) ≤ l.indent then l
  else { l.insert position t with indent := column, indents := l.indent :: l.indents }

/-- Whether a possible key is too far behind: on another line, or by more than 1024 characters. -/
def isStale (p : Place) (key : PossibleKey) : Bool :=
  key.place.line < p.line || key.place.index + 1024 < p.index

/-- Gives up possible keys that are too far behind. A needed one must not be given up. -/
def dropStale (l : Lexer) : Option Lexer :=
  let here := l.cursor.place
  let fresh (key : Option PossibleKey) := key.filter fun k => !isStale here k
  let lost (key : Option PossibleKey) := key.any fun k => k.needed && isStale here k
  if lost l.blockKey || l.keys.any lost then none
  else some { l with blockKey := fresh l.blockKey, keys := l.keys.map fresh }

/-- Gives up the possible key of the innermost collection, unless it is needed. -/
def dropKey (l : Lexer) : Option Lexer :=
  if l.possibleKey.any (·.needed) then none else some (l.setKey none)

/-- Keeps the next token as a possible key, if one may begin here. -/
def saveKey (l : Lexer) : Option Lexer :=
  if l.keyAllowed then do
    let needed := !l.inFlow && l.indent == (l.cursor.place.column : Int)
    let l ← l.dropKey
    return l.setKey (some ⟨l.count, l.cursor.place, needed⟩)
  else some l

/-- Skips blanks, comments and line ends. A tab is a blank where no key may begin. -/
def skipGap (l : Lexer) : Nat → Lexer
  | 0 => l
  | fuel + 1 =>
    let tabs := l.inFlow || !l.keyAllowed
    let c := l.cursor.skipWhile fun ch => ch == ' ' || (tabs && ch == '\t')
    let c := if c.sees ['#'] then c.skipWhile fun ch => !isBreak ch else c
    if breakWidth c.rest == 0 then { l with cursor := c }
    else
      skipGap { l with cursor := c.skipBreak, keyAllowed := l.keyAllowed || !l.inFlow } fuel

def mark (l : Lexer) (t : Token) : Lexer := { l.emit t with cursor := l.cursor.skip 1 }

def take (l : Lexer) (t : Token) (c : Cursor) : Lexer := { l.emit t with cursor := c }

def documentMark (l : Lexer) (t : Token) : Option Lexer := do
  let l ← (l.closeBlocks (-1)).dropKey
  return { l.emit t with cursor := l.cursor.skip 3, keyAllowed := false }

def directive (l : Lexer) : Option Lexer := do
  let l ← (l.closeBlocks (-1)).dropKey
  let (t, c) ← readDirective l.cursor
  return { l.take t c with keyAllowed := false }

def openFlow (l : Lexer) (t : Token) : Option Lexer := do
  let l ← l.saveKey
  return { l.mark t with keys := none :: l.keys, keyAllowed := true }

def closeFlow (l : Lexer) (t : Token) : Option Lexer := do
  let l ← l.dropKey
  return { l.mark t with keys := l.keys.tail, keyAllowed := false }

def flowEntry (l : Lexer) : Option Lexer := do
  let l ← l.dropKey
  return { l.mark .flowEntry with keyAllowed := true }

def blockEntry (l : Lexer) : Option Lexer := do
  if !l.inFlow && !l.keyAllowed then none
  else
    let l ← (l.openBlock l.cursor.place.column l.count .blockSequence).dropKey
    return { l.mark .blockEntry with keyAllowed := true }

def explicitKey (l : Lexer) : Option Lexer := do
  if !l.inFlow && !l.keyAllowed then none
  else
    let l ← (l.openBlock l.cursor.place.column l.count .blockMapping).dropKey
    return { l.mark .key with keyAllowed := !l.inFlow }

def value (l : Lexer) : Option Lexer :=
  match l.possibleKey with
  | some key =>
    let l := (l.insert key.position .key).openBlock key.place.column key.position .blockMapping
    some { (l.setKey none).mark .value with keyAllowed := false }
  | none =>
    if !l.inFlow && !l.keyAllowed then none
    else
      let l := l.openBlock l.cursor.place.column l.count .blockMapping
      some { l.mark .value with keyAllowed := !l.inFlow }

def name (l : Lexer) (token : String → Token) : Option Lexer := do
  let l ← l.saveKey
  let (name, c) ← readName (l.cursor.skip 1)
  return { l.take (token name) c with keyAllowed := false }

def tag (l : Lexer) : Option Lexer := do
  let l ← l.saveKey
  let (t, c) ← readTag l.inFlow l.cursor
  return { l.take (.tag t) c with keyAllowed := false }

def block (l : Lexer) (folded : Bool) : Option Lexer := do
  let l ← l.dropKey
  let (text, c) ← readBlock folded l.indent (l.cursor.skip 1)
  return { l.take (.scalar (String.ofList text) false) c with keyAllowed := true }

def quoted (l : Lexer) (single : Bool) : Option Lexer := do
  let l ← l.saveKey
  let (text, c) ← readQuoted single [] (l.cursor.skip 1) (l.cursor.rest.length + 1)
  return { l.take (.scalar (String.ofList text) false) c with keyAllowed := false }

/-- A plain scalar. A key may begin behind it when a line has ended there. -/
def plain (l : Lexer) : Option Lexer := do
  let l ← l.saveKey
  let floor := (l.indent + 1).toNat
  let p ← readPlain l.inFlow floor [] {} l.cursor (l.cursor.rest.length + 1)
  return { l.take (.scalar (String.ofList p.text) true) p.cursor with keyAllowed := p.broken }

/-- Whether a plain scalar may begin with a character that is followed by another one. -/
def opensScalar (flow : Bool) (c : Char) (next : Option Char) : Bool :=
  if c == '-' then !next.any isBlank
  else if c == '?' || c == ':' then !flow && !isGap next
  else opensPlain c

def token (l : Lexer) (c : Char) (next : Option Char) : Option Lexer :=
  if l.cursor.place.column == 0 && c == '%' then l.directive
  else if l.cursor.atDocumentMark then
    l.documentMark (if c == '-' then .documentStart else .documentEnd)
  else if c == '[' then l.openFlow .flowSequence
  else if c == '\x7b' then l.openFlow .flowMapping
  else if c == ']' then l.closeFlow .flowSequenceEnd
  else if c == '\x7d' then l.closeFlow .flowMappingEnd
  else if c == ',' then l.flowEntry
  else if c == '-' && isGap next then l.blockEntry
  else if c == '?' && (l.inFlow || isGap next) then l.explicitKey
  else if c == ':' && (l.inFlow || isGap next) then l.value
  else if c == '*' then l.name .alias
  else if c == '&' then l.name .anchor
  else if c == '!' then l.tag
  else if c == '|' && !l.inFlow then l.block false
  else if c == '>' && !l.inFlow then l.block true
  else if c == '\'' then l.quoted true
  else if c == '"' then l.quoted false
  else if opensScalar l.inFlow c next && !isGap (some c) then l.plain
  else none

def run (l : Lexer) : Nat → Option Lexer
  | 0 => none
  | fuel + 1 => do
    let l ← (l.skipGap (l.cursor.rest.length + 1)).dropStale
    let l := l.closeBlocks l.cursor.place.column
    match l.cursor.rest with
    | [] => (l.closeBlocks (-1)).dropKey
    | c :: rest => (← l.token c rest.head?).run fuel

end Lexer

def isAllowed (c : Char) : Bool :=
  let n := c.toNat
  n == 9 || n == 10 || n == 13 || (0x20 ≤ n && n ≤ 0x7E) || n == 0x85 || (0xA0 ≤ n && n ≤ 0xD7FF) ||
    (0xE000 ≤ n && n ≤ 0xFFFD) || 0x10000 ≤ n

/-- The cursor at the beginning of a text. A byte order mark there is skipped. -/
def Cursor.start (cs : List Char) : Cursor :=
  let c : Cursor := ⟨{}, cs⟩
  if c.sees ['\uFEFF'] then c.skip 1 else c

def tokens? (text : String) : Option (List Token) :=
  let cs := text.toList
  if cs.all isAllowed then
    (Lexer.run { cursor := .start cs } (cs.length + 1)).map fun l => l.tokens.reverse
  else none

end ApiCollection.Yaml
