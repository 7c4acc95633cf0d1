import ApiCollection.Yaml.Scalar

/-!
# Written forms of texts

A text is written plainly where that is read back as the same text. Otherwise it is put in single
quotes, and in double quotes with escapes when single quotes cannot hold it. A text with line
feeds is written as a literal block, line by line, when a block can hold it.
-/

namespace ApiCollection.Yaml

def isBreak (c : Char) : Bool :=
  c == '\n' || c == '\r' || c == '\u0085' || c == '\u2028' || c == '\u2029'

/-- Whether a character is a space, a tab or the end of a line. No character is the end of the
text. -/
def isGap : Option Char → Bool
  | none => true
  | some c => c == ' ' || c == '\t' || isBreak c

/-- Whether a character can stand outside double quotes. -/
def isPrintable (c : Char) : Bool :=
  let n := c.toNat
  n == 10 || (0x20 ≤ n && n ≤ 0x7E) || (0xA0 ≤ n && n ≤ 0xD7FF) ||
    (0xE000 ≤ n && n ≤ 0xFFFD && n != 0xFEFF) || 0x10000 ≤ n

def opensPlain (c : Char) : Bool := !"#,[]\x7b\x7d&*!|>'\"%@\x60".toList.contains c

/-- Whether two neighbours satisfy a condition somewhere in a text. -/
def anyPair (p : Char → Char → Bool) : List Char → Bool
  | a :: b :: rest => p a b || anyPair p (b :: rest)
  | _ => false

/-- Whether a colon stands before a gap, or a hash behind one. -/
def hasInnerMark : List Char → Bool
  | [] => false
  | [last] => last == ':'
  | a :: b :: rest =>
    (a == ':' && isGap (some b)) || (b == '#' && isGap (some a)) || hasInnerMark (b :: rest)

/-- Whether the beginning of a text would be read as a mark. -/
def opensWithMark (cs : List Char) : Bool :=
  Text.startsWith ['-', '-', '-'] cs || Text.startsWith ['.', '.', '.'] cs ||
    match cs with
    | [] => false
    | c :: rest =>
      !opensPlain c || ((c == '?' || c == ':' || c == '-') && isGap rest.head?)

/-- Whether a text has a space or a break at one of its ends. -/
def isFramed (cs : List Char) : Bool :=
  let outer (c : Char) : Bool := c == ' ' || isBreak c
  cs.head?.any outer || cs.getLast?.any outer

/-- Whether only double quotes can hold a text: it has a character that is not printed, or a space
at the end of a line. -/
def needsEscapes (cs : List Char) : Bool :=
  cs.any (fun c => !isPrintable c) || anyPair (fun a b => a == ' ' && isBreak b) cs

def indentsLine (cs : List Char) : Bool := anyPair (fun a b => isBreak a && b == ' ') cs

def allowsPlain (cs : List Char) : Bool :=
  !(isFramed cs || cs.any isBreak || opensWithMark cs || hasInnerMark cs || needsEscapes cs)

def allowsSingle (cs : List Char) : Bool := !(indentsLine cs || needsEscapes cs)

def allowsBlock (cs : List Char) : Bool :=
  !(cs.isEmpty || cs.getLast? == some ' ' || needsEscapes cs)

inductive Form where
  | plain
  | single
  | double
  | literal
  deriving DecidableEq, Repr

def quotedForm (cs : List Char) : Form := if allowsSingle cs then .single else .double

def formOf (s : String) : Form :=
  let cs := s.toList
  if cs.contains '\n' then if allowsBlock cs then .literal else .double
  else if Scalar.misreads s || !allowsPlain cs then quotedForm cs
  else .plain

/-- Whether a text can stand before a colon on one line. -/
def isSimpleKey (s : String) : Bool := !s.toList.any isBreak && s.utf8ByteSize ≤ 128

def margin (indent : Nat) : List Char := List.replicate indent ' '

/-- The lines of a text, each behind a margin unless it is empty. `fresh` says whether a line
begins here. -/
def indented (indent : Nat) (fresh : Bool) : List Char → List Char
  | [] => []
  | c :: cs =>
    if isBreak c then c :: indented indent true cs
    else if fresh then margin indent ++ c :: indented indent false cs
    else c :: indented indent false cs

/-- A quote is written twice, and other characters once. -/
def singleChars (cs : List Char) : List Char :=
  cs.flatMap fun c => if c == '\'' then ['\'', '\''] else [c]

/-- A text in single quotes. Lines behind the first one have a margin. -/
def singleText (indent : Nat) (cs : List Char) : List Char :=
  let close := if cs.getLast?.any isBreak then margin indent ++ ['\''] else ['\'']
  '\'' :: indented indent false (singleChars cs) ++ close

def hexDigits (width n : Nat) : List Char :=
  let digits := (Nat.toDigits 16 n).map Char.toUpper
  List.replicate (width - digits.length) '0' ++ digits

def shortEscapes : List (Nat × Char) :=
  [(0, '0'), (7, 'a'), (8, 'b'), (9, 't'), (10, 'n'), (11, 'v'), (12, 'f'), (13, 'r'), (27, 'e'),
    (34, '"'), (92, '\\'), (0x85, 'N'), (0xA0, '_'), (0x2028, 'L'), (0x2029, 'P')]

def escape (c : Char) : List Char :=
  match shortEscapes.lookup c.toNat with
  | some letter => ['\\', letter]
  | none =>
    if c.toNat ≤ 0xFF then ['\\', 'x'] ++ hexDigits 2 c.toNat
    else if c.toNat ≤ 0xFFFF then ['\\', 'u'] ++ hexDigits 4 c.toNat
    else ['\\', 'U'] ++ hexDigits 8 c.toNat

def doubleText (cs : List Char) : List Char :=
  let char (c : Char) : List Char :=
    if !isPrintable c || isBreak c || c == '"' || c == '\\' then escape c else [c]
  '"' :: cs.flatMap char ++ ['"']

/-- The marks behind the bar of a block: a two when the first line begins with a space or is empty,
a minus when the last line has no end, and a plus when empty lines stand at the end. -/
def blockMarks (cs : List Char) : List Char :=
  let indentation := if cs.head?.any fun c => c == ' ' || isBreak c then ['2'] else []
  let ending := match cs.reverse with
    | [] => ['-']
    | [c] => if isBreak c then ['+'] else ['-']
    | c :: d :: _ => if !isBreak c then ['-'] else if isBreak d then ['+'] else []
  indentation ++ ending

def literalText (indent : Nat) (cs : List Char) : List Char :=
  '|' :: blockMarks cs ++ '\n' :: indented indent true cs

def closeLine (cs : List Char) : List Char := if cs.getLast?.any isBreak then cs else cs ++ ['\n']

/-- A text in its written form. Only blocks and breaks inside quotes use the margin. -/
def render (indent : Nat) (s : String) : List Char :=
  match formOf s with
  | .plain => s.toList
  | .single => singleText indent s.toList
  | .double => doubleText s.toList
  | .literal => literalText indent s.toList

end ApiCollection.Yaml
