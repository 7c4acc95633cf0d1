import ApiCollection.Yaml.Quoting

/-!
# Reading the texts of scalars

A cursor is a place in a text and the characters from there on. Cursors are moved over blanks and
line ends; the gaps between the pieces of a scalar are folded: one line end becomes a space, and of
several ones the first is dropped.

A scalar is plain, quoted or a block. Plain and quoted ones are sequences of pieces with gaps
between them. The lines of a block keep their ends, or are folded.
-/

namespace ApiCollection.Yaml

/-- A place: the number of characters before it, and its line and column. -/
structure Place where
  index : Nat := 0
  line : Nat := 0
  column : Nat := 0
  deriving DecidableEq, Repr

def Place.right (p : Place) (n : Nat) : Place := ⟨p.index + n, p.line, p.column + n⟩

/-- The beginning of the next line, behind a line end of some characters. -/
def Place.down (p : Place) (n : Nat) : Place := ⟨p.index + n, p.line + 1, 0⟩

/-- A place and the characters from there on. -/
structure Cursor where
  place : Place
  rest : List Char
  deriving DecidableEq, Repr

def isBlank (c : Char) : Bool := c == ' ' || c == '\t'

/-- The text that a line end contributes. Only line and paragraph separators stay themselves. -/
def breakText (c : Char) : List Char :=
  if c == '\u2028' || c == '\u2029' then [c] else ['\n']

/-- The number of characters of the line end that a text begins with. -/
def breakWidth : List Char → Nat
  | '\r' :: '\n' :: _ => 2
  | c :: _ => if isBreak c then 1 else 0
  | [] => 0

namespace Cursor

def skip (c : Cursor) (n : Nat) : Cursor := ⟨c.place.right n, c.rest.drop n⟩

/-- The cursor behind the longest run of characters of a class. -/
def skipWhile (c : Cursor) (p : Char → Bool) : Cursor := c.skip (c.rest.takeWhile p).length

def skipBreak (c : Cursor) : Cursor :=
  match breakWidth c.rest with
  | 0 => c
  | n => ⟨c.place.down n, c.rest.drop n⟩

def atLineEnd (c : Cursor) : Bool := c.rest.head?.all isBreak

/-- Whether the character `n` behind the cursor is a blank or ends a line or the text. -/
def gapAt (c : Cursor) (n : Nat) : Bool := isGap c.rest[n]?

def sees (c : Cursor) (start : List Char) : Bool := Text.startsWith start c.rest

def atDocumentMark (c : Cursor) : Bool :=
  c.place.column == 0 && (c.sees ['-', '-', '-'] || c.sees ['.', '.', '.']) && c.gapAt 3

/-- The end of the line behind blanks and a comment. Anything else there is refused. -/
def endOfLine? (c : Cursor) : Option Cursor :=
  let c := c.skipWhile isBlank
  let c := if c.sees ['#'] then c.skipWhile fun ch => !isBreak ch else c
  if c.atLineEnd then some c.skipBreak else none

end Cursor

/-- What stands between two pieces of a scalar. -/
structure Gap where
  /-- The blanks, while there is no line end. -/
  blanks : List Char := []
  /-- Whether a line has ended. -/
  broken : Bool := false
  /-- The text of the first line end. -/
  first : List Char := []
  /-- The texts of further line ends. -/
  more : List Char := []
  deriving DecidableEq, Repr

namespace Gap

/-- Adds a line end. Blanks before it are dropped. -/
def addBreak (g : Gap) (text : List Char) : Gap :=
  if g.broken then { g with more := g.more ++ text }
  else { g with blanks := [], broken := true, first := text }

/-- Adds a blank. It is dropped at the beginning of a line. -/
def addBlank (g : Gap) (c : Char) : Gap :=
  if g.broken then g else { g with blanks := g.blanks ++ [c] }

def text (g : Gap) : List Char :=
  if !g.broken then g.blanks
  else if g.first == ['\n'] then if g.more.isEmpty then [' '] else g.more
  else g.first ++ g.more

end Gap

/-- Reads the rest of a gap. At the beginning of a line, a tab before column `floor` is refused. -/
def readGap (floor : Nat) (g : Gap) (p : Place) : List Char → Option (Gap × Cursor)
  | '\r' :: '\n' :: cs => readGap floor (g.addBreak ['\n']) (p.down 2) cs
  | c :: cs =>
    if isBlank c then
      if g.broken && c == '\t' && p.column < floor then none
      else readGap floor (g.addBlank c) (p.right 1) cs
    else if isBreak c then readGap floor (g.addBreak (breakText c)) (p.down 1) cs
    else some (g, ⟨p, c :: cs⟩)
  | [] => some (g, ⟨p, []⟩)

def isFlowMark (c : Char) : Bool := ",[]\x7b\x7d".toList.contains c

/-- A piece of a plain scalar: it ends before a gap, before a colon at a gap, and in a flow
collection before a mark. There, a colon before a mark is refused. -/
def plainPiece (flow : Bool) : List Char → Option (List Char × List Char)
  | [] => some ([], [])
  | c :: cs =>
    if isGap (some c) then some ([], c :: cs)
    else if flow && c == ':' && cs.head?.any (fun d => isFlowMark d || d == '?') then none
    else if (c == ':' && isGap cs.head?) || (flow && isFlowMark c) then some ([], c :: cs)
    else (plainPiece flow cs).map fun (piece, rest) => (c :: piece, rest)

/-- A plain scalar that has been read, and whether a line ended behind it. -/
structure PlainText where
  text : List Char
  broken : Bool
  cursor : Cursor

/-- Reads pieces of a plain scalar, until a comment, a document mark, a mark, or outside of flow
collections a line that begins before column `floor`. -/
def readPlain (flow : Bool) (floor : Nat) (text : List Char) (gap : Gap) (c : Cursor) :
    Nat → Option PlainText
  | 0 => none
  | fuel + 1 =>
    if c.atDocumentMark || c.sees ['#'] then some ⟨text, gap.broken, c⟩
    else match plainPiece flow c.rest with
      | none => none
      | some (piece, rest) =>
        let behind : Cursor := ⟨c.place.right piece.length, rest⟩
        let text := if piece.isEmpty then text else text ++ gap.text ++ piece
        let gap := if piece.isEmpty then gap else {}
        if rest.isEmpty || !isGap rest.head? then some ⟨text, gap.broken, behind⟩
        else match readGap floor gap behind.place rest with
          | none => none
          | some (gap, next) =>
            if !flow && next.place.column < floor then some ⟨text, gap.broken, next⟩
            else readPlain flow floor text gap next fuel

def letterEscapes : List (Char × Char) :=
  [('0', '\x00'), ('a', '\x07'), ('b', '\x08'), ('t', '\t'), ('\t', '\t'), ('n', '\n'),
    ('v', '\x0b'), ('f', '\x0c'), ('r', '\r'), ('e', '\x1b'), (' ', ' '), ('"', '"'), ('/', '/'),
    ('\\', '\\'), ('N', '\u0085'), ('_', '\u00a0'), ('L', '\u2028'), ('P', '\u2029')]

/-- The number of digits behind the letter of a numeric escape. -/
def escapeWidth? (c : Char) : Option Nat :=
  if c == 'x' then some 2 else if c == 'u' then some 4 else if c == 'U' then some 8 else none

/-- The character of a code, unless it is a surrogate or out of range. -/
def charOfCode? (n : Nat) : Option Char := if n.isValidChar then some (.ofNat n) else none

/-- Reads an escape behind its backslash: its character and its width. -/
def readEscape (cs : List Char) : Option (Char × Nat) :=
  match cs with
  | [] => none
  | letter :: rest => match letterEscapes.lookup letter with
    | some c => some (c, 1)
    | none => do
      let width ← escapeWidth? letter
      let digits := rest.take width
      if digits.length < width then none
      else return (← charOfCode? (← Scalar.digits? 16 digits), width + 1)

inductive PieceEnd where
  | quote
  | gap
  /-- A line end behind a backslash, which contributes nothing. -/
  | joined
  deriving DecidableEq, Repr

structure QuotedPiece where
  text : List Char
  stop : PieceEnd
  cursor : Cursor

/-- Reads a piece of a quoted scalar; `read` holds its characters so far, last one first. -/
def quotedPiece (single : Bool) (read : List Char) (c : Cursor) : Nat → Option QuotedPiece
  | 0 => none
  | fuel + 1 =>
    match c.rest with
    | [] => none
    | ch :: rest =>
      if isGap (some ch) then some ⟨read.reverse, .gap, c⟩
      else if single then
        if ch == '\'' then
          if rest.head? == some '\'' then quotedPiece single ('\'' :: read) (c.skip 2) fuel
          else some ⟨read.reverse, .quote, c.skip 1⟩
        else quotedPiece single (ch :: read) (c.skip 1) fuel
      else if ch == '"' then some ⟨read.reverse, .quote, c.skip 1⟩
      else if ch == '\\' then
        if rest.head?.any isBreak then some ⟨read.reverse, .joined, (c.skip 1).skipBreak⟩
        else match readEscape rest with
          | none => none
          | some (e, width) => quotedPiece single (e :: read) (c.skip (width + 1)) fuel
      else quotedPiece single (ch :: read) (c.skip 1) fuel

/-- Reads pieces of a quoted scalar up to its closing quote. -/
def readQuoted (single : Bool) (text : List Char) (c : Cursor) :
    Nat → Option (List Char × Cursor)
  | 0 => none
  | fuel + 1 =>
    if c.atDocumentMark then none
    else match quotedPiece single [] c (c.rest.length + 1) with
      | none => none
      | some piece =>
        let text := text ++ piece.text
        if piece.stop == .quote then some (text, piece.cursor)
        else
          let gap : Gap := { broken := piece.stop == .joined }
          match readGap 0 gap piece.cursor.place piece.cursor.rest with
          | none => none
          | some (gap, next) => readQuoted single (text ++ gap.text) next fuel

/-- Which line ends at the end of a block stay. -/
inductive Chomp where
  | strip
  | clip
  | keep
  deriving DecidableEq, Repr

def chomp? : List Char → Option (Chomp × List Char)
  | '+' :: rest => some (.keep, rest)
  | '-' :: rest => some (.strip, rest)
  | _ => none

def indentation? : List Char → Option (Nat × List Char)
  | c :: rest => if c.isDigit then some (c.toNat - '0'.toNat, rest) else none
  | [] => none

/-- Reads the header of a block: a sign and a digit, in any order, both optional. A missing digit
is a zero, and a zero that is written is refused. -/
def readHeader (cs : List Char) : Option (Chomp × Nat × List Char) :=
  let refuse (chomp : Chomp) (n : Nat) (rest : List Char) :=
    if n == 0 then none else some (chomp, n, rest)
  match chomp? cs with
  | some (chomp, rest) => match indentation? rest with
    | some (n, rest) => refuse chomp n rest
    | none => some (chomp, 0, rest)
  | none => match indentation? cs with
    | some (n, rest) => match chomp? rest with
      | some (chomp, rest) => refuse chomp n rest
      | none => refuse .clip n rest
    | none => some (.clip, 0, cs)

structure BlockGap where
  /-- The texts of the line ends. -/
  breaks : List Char
  /-- The greatest column that is reached. -/
  widest : Nat
  cursor : Cursor

/-- Reads indentation and empty lines. An indentation of zero is not known yet; then all spaces in
front belong to it. A tab in the indentation is refused. -/
def readIndentation (indent : Nat) (breaks : List Char) (widest : Nat) (p : Place) :
    List Char → Option BlockGap
  | '\r' :: '\n' :: cs => readIndentation indent (breaks ++ ['\n']) widest (p.down 2) cs
  | c :: cs =>
    let inMargin := indent == 0 || p.column < indent
    if c == ' ' && inMargin then
      readIndentation indent breaks (max widest (p.column + 1)) (p.right 1) cs
    else if c == '\t' && inMargin then none
    else if isBreak c then readIndentation indent (breaks ++ breakText c) widest (p.down 1) cs
    else some ⟨breaks, widest, ⟨p, c :: cs⟩⟩
  | [] => some ⟨breaks, widest, ⟨p, []⟩⟩

structure BlockText where
  text : List Char := []
  /-- The end of the last line. -/
  lineEnd : List Char := []
  /-- Whether the last line began with a blank. -/
  blankLed : Bool := false
  /-- The ends of the empty lines behind it. -/
  breaks : List Char

/-- Reads the lines of a block, and the cursor behind it. Folding drops the end of a line, or makes
it a space, when neither the line nor the next one begins with a blank. -/
def readLines (folded : Bool) (indent : Nat) (b : BlockText) (c : Cursor) :
    Nat → Option (BlockText × Cursor)
  | 0 => none
  | fuel + 1 =>
    if c.place.column != indent || c.rest.isEmpty then some (b, c)
    else
      let blank := c.rest.head?.any isBlank
      let between :=
        if folded && b.lineEnd == ['\n'] && !b.blankLed && !blank then
          if b.breaks.isEmpty then [' '] else []
        else b.lineEnd
      let line := c.rest.takeWhile fun ch => !isBreak ch
      let atEnd := c.skip line.length
      let lineEnd := (atEnd.rest.head?.map breakText).getD []
      let next := atEnd.skipBreak
      match readIndentation indent [] 0 next.place next.rest with
      | none => none
      | some gap =>
        let text := b.text ++ between ++ b.breaks ++ line
        readLines folded indent ⟨text, lineEnd, blank, gap.breaks⟩ gap.cursor fuel

/-- Reads a block behind its mark. Its lines are further in than the column `parent`, which is -1
at the top; `none` stands for a refused block. -/
def readBlock (folded : Bool) (parent : Int) (c : Cursor) : Option (List Char × Cursor) := do
  let (chomp, digit, rest) ← readHeader c.rest
  let c ← (c.skip (c.rest.length - rest.length)).endOfLine?
  let given := if digit == 0 then 0 else (max parent 0).toNat + digit
  let gap ← readIndentation given [] 0 c.place c.rest
  let indent := if given == 0 then max (max gap.widest (parent + 1).toNat) 1 else given
  let (b, c) ← readLines folded indent { breaks := gap.breaks } gap.cursor (c.rest.length + 1)
  let ending := match chomp with
    | .strip => []
    | .clip => b.lineEnd
    | .keep => b.lineEnd ++ b.breaks
  return (b.text ++ ending, c)

end ApiCollection.Yaml
