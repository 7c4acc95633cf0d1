import ApiCollection.Text.ClassTable

/-!
# Characters and texts

The classes that source texts, paths and display names are read with decide ASCII characters
directly and ask the tables of `ClassTable` about all others.

A text that is being read is a list of characters. The readers share operations for trimming,
cutting at separators, lines, words and substring search.
-/

namespace ApiCollection.Text

/-- White space in the sense of the Unicode property White_Space. -/
def isBlank (c : Char) : Bool :=
  let n := c.toNat
  (9 ≤ n && n ≤ 13) || n == 32 || n == 0x85 || n == 0xA0 || n == 0x1680 ||
    (0x2000 ≤ n && n ≤ 0x200A) || n == 0x2028 || n == 0x2029 || n == 0x202F ||
    n == 0x205F || n == 0x3000

/-- Space, tab, line feed, form feed and carriage return. -/
def isAsciiBlank (c : Char) : Bool :=
  c == ' ' || c == '\t' || c == '\n' || c == '\x0c' || c == '\r'

def isTabOrSpace (c : Char) : Bool := c == ' ' || c == '\t'

def isAsciiAlphanumeric (c : Char) : Bool := c.isAlphanum

/-- A character of a word: alphabetic, a mark, a decimal digit, a connector or a join control. -/
def isWordChar (c : Char) : Bool :=
  if c.toNat < 128 then c.isAlphanum || c == '_'
  else alphabeticTable.has c.toNat || wordExtraTable.has c.toNat

/-- Alphabetic characters and numbers of every kind. -/
def isAlphanumeric (c : Char) : Bool :=
  if c.toNat < 128 then c.isAlphanum
  else alphabeticTable.has c.toNat || numericExtraTable.has c.toNat

def isDecimalDigit (c : Char) : Bool :=
  if c.toNat < 128 then c.isDigit else decimalTable.has c.toNat

def isLowercase (c : Char) : Bool :=
  if c.toNat < 128 then c.isLower else lowerTable.has c.toNat

def isUppercase (c : Char) : Bool :=
  if c.toNat < 128 then c.isUpper else upperTable.has c.toNat

/-- The property Cased: small, capital and title-case letters. -/
def isCased (c : Char) : Bool :=
  isLowercase c || isUppercase c || (128 ≤ c.toNat && titleLetterTable.has c.toNat)

def isCaseIgnorable (c : Char) : Bool :=
  if c.toNat < 128 then c == '\'' || c == '.' || c == ':' || c == '^' || c.toNat == 96
  else caseIgnorableTable.has c.toNat

def hexDigit? (c : Char) : Option Nat :=
  if c.isDigit then some (c.toNat - '0'.toNat)
  else if 'a' ≤ c && c ≤ 'f' then some (c.toNat - 'a'.toNat + 10)
  else if 'A' ≤ c && c ≤ 'F' then some (c.toNat - 'A'.toNat + 10)
  else none

theorem isBlank_of_isAsciiBlank {c : Char} (h : isAsciiBlank c = true) : isBlank c = true := by
  simp only [isAsciiBlank, Bool.or_eq_true, beq_iff_eq] at h
  rcases h with (((rfl | rfl) | rfl) | rfl) | rfl <;> decide

def trimStart (cs : List Char) : List Char := cs.dropWhile isBlank

/-- Drops the longest end that consists of characters of a class. -/
def dropEndWhile (p : Char → Bool) (cs : List Char) : List Char :=
  (cs.reverse.dropWhile p).reverse

def trimEnd (cs : List Char) : List Char := dropEndWhile isBlank cs

def trim (cs : List Char) : List Char := trimEnd (trimStart cs)

/-- Drops characters of a class at both ends. -/
def trimMatches (p : Char → Bool) (cs : List Char) : List Char :=
  dropEndWhile p (cs.dropWhile p)

def allBlank (cs : List Char) : Bool := cs.all isBlank

/-- What follows a given start, if the text has that start. -/
def after? : List Char → List Char → Option (List Char)
  | [], cs => some cs
  | _ :: _, [] => none
  | p :: ps, c :: cs => if p == c then after? ps cs else none

def startsWith (start cs : List Char) : Bool := (after? start cs).isSome

/-- What precedes a given end, if the text has that end. -/
def before? (ending cs : List Char) : Option (List Char) :=
  (after? ending.reverse cs.reverse).map List.reverse

def endsWith (ending cs : List Char) : Bool := (before? ending cs).isSome

/-- The parts before and after the first occurrence of `piece`. -/
def cutAt? (piece : List Char) : List Char → Option (List Char × List Char)
  | [] => if piece.isEmpty then some ([], []) else none
  | c :: cs => match after? piece (c :: cs) with
    | some rest => some ([], rest)
    | none => (cutAt? piece cs).map fun (front, rest) => (c :: front, rest)

def occursIn (piece cs : List Char) : Bool := (cutAt? piece cs).isSome

def cutAtChar? (sep : Char) : List Char → Option (List Char × List Char)
  | [] => none
  | c :: cs =>
    if c == sep then some ([], cs)
    else (cutAtChar? sep cs).map fun (front, rest) => (c :: front, rest)

/-- The pieces between the characters of a class; there is always at least one. -/
def splitWhere (p : Char → Bool) : List Char → List (List Char)
  | [] => [[]]
  | c :: cs =>
    if p c then [] :: splitWhere p cs
    else match splitWhere p cs with
      | [] => [[c]]
      | piece :: pieces => (c :: piece) :: pieces

def splitAtChar (sep : Char) (cs : List Char) : List (List Char) := splitWhere (· == sep) cs

/-- The maximal runs of characters that are not blank. -/
def words (cs : List Char) : List (List Char) :=
  (splitWhere isBlank cs).filter fun w => !w.isEmpty

/-- Drops one carriage return at the end of a line. -/
def withoutReturn (line : List Char) : List Char := (before? ['\r'] line).getD line

/-- The lines of a text, without their ends. A line feed at the very end opens no line. -/
def lines (cs : List Char) : List (List Char) :=
  let pieces := splitAtChar '\n' cs
  let kept := if pieces.getLast?.any List.isEmpty then pieces.dropLast else pieces
  kept.map withoutReturn

def joinWith (sep : List Char) (pieces : List (List Char)) : List Char := sep.intercalate pieces

/-- Words joined by single spaces. -/
def squeezeBlanks (cs : List Char) : List Char := joinWith [' '] (words cs)

/-- The last piece behind a separator; the whole text when the separator does not occur. -/
def lastPiece (sep : Char) (cs : List Char) : List Char :=
  (splitAtChar sep cs).getLast?.getD []

def replaceChar (old new : Char) (cs : List Char) : List Char :=
  cs.map fun c => if c == old then new else c

/-- Replaces the occurrences of a piece that is not empty, from left to right. The first `skipped`
characters are dropped. -/
def replaceFrom (piece new : List Char) (skipped : Nat) : List Char → List Char
  | [] => []
  | c :: cs =>
    if skipped > 0 then replaceFrom piece new (skipped - 1) cs
    else if startsWith piece (c :: cs) then new ++ replaceFrom piece new (piece.length - 1) cs
    else c :: replaceFrom piece new 0 cs

def replacePiece (piece new cs : List Char) : List Char := replaceFrom piece new 0 cs

/-- The number of bytes of a text in UTF-8. -/
def byteLength : List Char → Nat
  | [] => 0
  | c :: cs => c.utf8Size + byteLength cs

/-- Cuts a text at a number of bytes; a character that straddles the cut goes to the end part. -/
def cutAtByte : Nat → List Char → List Char × List Char
  | _, [] => ([], [])
  | n, c :: cs =>
    if c.utf8Size ≤ n then
      let (front, rest) := cutAtByte (n - c.utf8Size) cs
      (c :: front, rest)
    else ([], c :: cs)

theorem length_dropWhile_le (p : Char → Bool) (cs : List Char) :
    (cs.dropWhile p).length ≤ cs.length :=
  (List.dropWhile_sublist p).length_le

theorem length_trimStart_le (cs : List Char) : (trimStart cs).length ≤ cs.length :=
  length_dropWhile_le isBlank cs

theorem length_trim_le (cs : List Char) : (trim cs).length ≤ cs.length := by
  have h₁ := length_trimStart_le cs
  have h₂ := length_dropWhile_le isBlank (trimStart cs).reverse
  simp only [List.length_reverse] at h₂
  simp only [trim, trimEnd, dropEndWhile, List.length_reverse]
  omega

@[simp] theorem after?_nil (cs : List Char) : after? [] cs = some cs := rfl

/-- A start is recognised exactly when the text is that start and the rest. -/
theorem after?_eq_some_iff {start cs rest : List Char} :
    after? start cs = some rest ↔ cs = start ++ rest := by
  induction start generalizing cs with
  | nil => simp [after?, eq_comm]
  | cons p ps ih =>
    cases cs with
    | nil => simp [after?]
    | cons c cs =>
      by_cases h : p = c
      · simp [after?, h, ih]
      · simp [after?, h, Ne.symm h]

theorem cutAtChar?_eq_some {sep : Char} {cs front rest : List Char}
    (h : cutAtChar? sep cs = some (front, rest)) : cs = front ++ sep :: rest := by
  induction cs generalizing front with
  | nil => simp [cutAtChar?] at h
  | cons c cs ih =>
    by_cases hc : c = sep
    · simp only [cutAtChar?, hc, beq_self_eq_true, if_true, Option.some.injEq,
        Prod.mk.injEq] at h
      obtain ⟨rfl, rfl⟩ := h
      simp [hc]
    · have hb : (c == sep) = false := by simpa using hc
      rw [cutAtChar?, hb] at h
      simp only [Bool.false_eq_true, if_false, Option.map_eq_some_iff] at h
      obtain ⟨⟨f, r⟩, hf, he⟩ := h
      simp only [Prod.mk.injEq] at he
      obtain ⟨rfl, rfl⟩ := he
      simp [ih hf]

/-- Cutting a text at a byte loses nothing. -/
theorem cutAtByte_append (n : Nat) (cs : List Char) :
    (cutAtByte n cs).1 ++ (cutAtByte n cs).2 = cs := by
  induction cs generalizing n with
  | nil => simp [cutAtByte]
  | cons c cs ih =>
    by_cases h : c.utf8Size ≤ n
    · simp [cutAtByte, h, ih]
    · simp [cutAtByte, h]

end ApiCollection.Text
