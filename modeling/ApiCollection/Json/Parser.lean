import ApiCollection.Json.Value
import ApiCollection.Text.Chars

/-!
# Reading JSON

A text is read to its end, and containers nest at most `maxDepth` deep. `parseWritten` gives the
members of an object as they are written; in the value of `parse` a repeated key keeps its first
place and takes its last value.

A number with a fraction or an exponent is read by gathering its digits in one word until the
next digit would not fit; the digits behind are dropped, and the gathered number is scaled by one
power of ten with one rounding.
-/

namespace ApiCollection.Json

/-- The deepest nesting of containers that is read. -/
def maxDepth : Nat := 127

def isSpace (c : Char) : Bool := c == ' ' || c == '\n' || c == '\t' || c == '\r'

def skipSpace (cs : List Char) : List Char := cs.dropWhile isSpace

/-- Digits gathered in one word, with a power of ten. -/
structure Gathered where
  significand : Nat
  exponent : Int
  deriving DecidableEq, Repr

def fits (significand digit : Nat) : Bool := significand * 10 + digit < Nat.pow 2 64

def digitValue (c : Char) : Nat := c.toNat - '0'.toNat

structure Run where
  significand : Nat
  /-- The number of digits that fitted. -/
  kept : Nat
  /-- The number of digits behind them. -/
  dropped : Nat
  rest : List Char

/-- Gathers digits as long as they fit, and counts those that follow. -/
def gather (significand kept : Nat) : List Char → Run
  | [] => ⟨significand, kept, 0, []⟩
  | c :: cs =>
    if c.isDigit then
      if fits significand (digitValue c) then
        gather (significand * 10 + digitValue c) (kept + 1) cs
      else
        ⟨significand, kept, (cs.takeWhile Char.isDigit).length + 1, cs.dropWhile Char.isDigit⟩
    else ⟨significand, kept, 0, c :: cs⟩

/-- Scales a gathered number by a power of ten that binary64 holds: one multiplication or one
division. -/
def scaleOnce (f : Float) (exponent : Int) : Float :=
  if 0 ≤ exponent then f * Float.ofScientific 1 false exponent.toNat
  else f / Float.ofScientific 1 false (-exponent).toNat

/-- Divides by the largest power of ten until the exponent is in reach. -/
def scaleDown (f : Float) (exponent : Int) : Nat → Float × Int
  | 0 => (f, exponent)
  | steps + 1 =>
    if exponent < -308 && f != 0.0 then
      scaleDown (f / Float.ofScientific 1 false 308) (exponent + 308) steps
    else (f, exponent)

/-- The binary64 number of gathered digits; none when it is too large. -/
def Gathered.toReal? (g : Gathered) (negative : Bool) : Option Number :=
  let start := (UInt64.ofNat g.significand).toFloat
  if 308 < g.exponent && start != 0.0 then none
  else
    let (f, exponent) := scaleDown start g.exponent 4
    let scaled := if f == 0.0 then f else scaleOnce f exponent
    if scaled.isInf then none
    else some (.real (if negative then -scaled else scaled).toBits)

def readExponent (g : Gathered) (negative : Bool) (cs : List Char) :
    Option (Number × List Char) :=
  let (down, cs) := match cs with
    | '+' :: rest => (false, rest)
    | '-' :: rest => (true, rest)
    | _ => (false, cs)
  let digits := cs.takeWhile Char.isDigit
  let rest := cs.dropWhile Char.isDigit
  if digits.isEmpty then none
  else
    let size := digits.foldl (fun n c => n * 10 + digitValue c) 0
    if size < Nat.pow 2 31 then
      let exponent := if down then g.exponent - size else g.exponent + size
      ((Gathered.mk g.significand exponent).toReal? negative).map fun n => (n, rest)
    else if g.significand != 0 && !down then none
    else ((Gathered.mk 0 0).toReal? negative).map fun n => (n, rest)

/-- Ends a number that has a fraction or dropped digits. -/
def finishReal (g : Gathered) (negative : Bool) (cs : List Char) :
    Option (Number × List Char) :=
  match cs with
  | 'e' :: rest => readExponent g negative rest
  | 'E' :: rest => readExponent g negative rest
  | _ => (g.toReal? negative).map fun n => (n, cs)

def readFraction (g : Gathered) (negative : Bool) (cs : List Char) :
    Option (Number × List Char) :=
  if cs.head?.any Char.isDigit then
    let run := gather g.significand 0 cs
    finishReal ⟨run.significand, g.exponent - run.kept⟩ negative run.rest
  else none

/-- Ends a number that has digits before the point only. -/
def finishInteger (run : Run) (negative : Bool) : Option (Number × List Char) :=
  let real := ((Gathered.mk run.significand run.dropped).toReal? negative).map fun n =>
    (n, run.rest)
  if run.dropped != 0 then real
  else if !negative then some (.integer run.significand, run.rest)
  else if run.significand == 0 || Nat.pow 2 63 < run.significand then real
  else some (.integer (-run.significand), run.rest)

/-- Reads a number behind its sign. A zero in front stands alone. -/
def readNumber (negative : Bool) (cs : List Char) : Option (Number × List Char) :=
  let leadingZero := cs.head? == some '0' && cs.tail.head?.any Char.isDigit
  if !(cs.head?.any Char.isDigit) || leadingZero then none
  else
    let run := gather 0 0 cs
    let g : Gathered := ⟨run.significand, run.dropped⟩
    match run.rest with
    | '.' :: fraction => readFraction g negative fraction
    | 'e' :: exponent => readExponent g negative exponent
    | 'E' :: exponent => readExponent g negative exponent
    | _ => finishInteger run negative

/-- The value of four hexadecimal digits. -/
def hex4? (a b c d : Char) : Option Nat := do
  let a ← Text.hexDigit? a
  let b ← Text.hexDigit? b
  let c ← Text.hexDigit? c
  let d ← Text.hexDigit? d
  return ((a * 16 + b) * 16 + c) * 16 + d

def shortEscape? (c : Char) : Option Char :=
  if c == '"' || c == '\\' || c == '/' then some c
  else if c == 'b' then some '\x08'
  else if c == 'f' then some '\x0c'
  else if c == 'n' then some '\n'
  else if c == 'r' then some '\r'
  else if c == 't' then some '\t'
  else none

def joinSurrogates (high low : Nat) : Char :=
  Char.ofNat (0x10000 + (high - 0xD800) * 0x400 + (low - 0xDC00))

/-- Reads a string behind its opening quote: the characters, last one first, and the rest. A
surrogate that stands alone, an unknown escape and a bare control character are refused. -/
def readChars (read : List Char) : List Char → Option (List Char × List Char)
  | '"' :: rest => some (read, rest)
  | '\\' :: 'u' :: a :: b :: c :: d :: rest =>
    match hex4? a b c d with
    | none => none
    | some n =>
      if 0xDC00 ≤ n && n ≤ 0xDFFF then none
      else if 0xD800 ≤ n && n ≤ 0xDBFF then
        match rest with
        | '\\' :: 'u' :: e :: f :: g :: h :: rest =>
          match hex4? e f g h with
          | none => none
          | some low =>
            if 0xDC00 ≤ low && low ≤ 0xDFFF then readChars (joinSurrogates n low :: read) rest
            else none
        | _ => none
      else readChars (Char.ofNat n :: read) rest
  | '\\' :: c :: rest => match shortEscape? c with
    | some e => readChars (e :: read) rest
    | none => none
  | c :: rest => if c == '\\' || c.toNat < 32 then none else readChars (c :: read) rest
  | [] => none

def readString (cs : List Char) : Option (String × List Char) :=
  (readChars [] cs).map fun (read, rest) => (String.ofList read.reverse, rest)

/-- What is expected next while a container is open. -/
inductive Open where
  /-- An array with its items, last one first. -/
  | array (items : List Json)
  /-- An object with its members, last one first, and the key that waits for a value. -/
  | object (members : List (String × Json)) (key : String)

/-- The containers that are open, the innermost one first. -/
abbrev OpenStack := List Open

inductive Expect where
  | value
  /-- An item of a new array, or its end. -/
  | firstItem
  /-- A key of a new object, or its end. -/
  | firstKey
  /-- A key, behind the given members of the object. -/
  | key (members : List (String × Json))
  /-- A comma or the end of the innermost container, behind a value. -/
  | afterValue (value : Json)

def readKey (cs : List Char) : Option (String × List Char) :=
  match cs with
  | '"' :: rest => match readString rest with
    | none => none
    | some (key, rest) => match skipSpace rest with
      | ':' :: rest => some (key, rest)
      | _ => none
  | _ => none

/-- One token of a value, with the containers that are open behind it. -/
def readToken (stack : OpenStack) (cs : List Char) : Option (Expect × OpenStack × List Char) :=
  match cs with
  | 'n' :: 'u' :: 'l' :: 'l' :: rest => some (.afterValue .null, stack, rest)
  | 't' :: 'r' :: 'u' :: 'e' :: rest => some (.afterValue (.bool true), stack, rest)
  | 'f' :: 'a' :: 'l' :: 's' :: 'e' :: rest => some (.afterValue (.bool false), stack, rest)
  | '"' :: rest => (readString rest).map fun (s, rest) => (.afterValue (.string s), stack, rest)
  | '-' :: rest =>
    (readNumber true rest).map fun (n, rest) => (.afterValue (.number n), stack, rest)
  | '[' :: rest =>
    if stack.length < maxDepth then some (.firstItem, .array [] :: stack, rest) else none
  | c :: rest =>
    if c.isDigit then
      (readNumber false cs).map fun (n, rest) => (.afterValue (.number n), stack, rest)
    else if c == '\x7b' then
      if stack.length < maxDepth then some (.firstKey, stack, rest) else none
    else none
  | [] => none

/-- Reads tokens until the outermost value is complete and only blanks follow. -/
def readValue : Nat → Expect → OpenStack → List Char → Option Json
  | 0, _, _, _ => none
  | fuel + 1, expect, stack, cs =>
    let cs := skipSpace cs
    match expect with
    | .value => match readToken stack cs with
      | some (expect, stack, rest) => readValue fuel expect stack rest
      | none => none
    | .firstItem => match cs, stack with
      | ']' :: rest, .array _ :: stack => readValue fuel (.afterValue (.array [])) stack rest
      | _, _ => readValue fuel .value stack cs
    | .firstKey => match cs with
      | '\x7d' :: rest => readValue fuel (.afterValue (.object [])) stack rest
      | _ => readValue fuel (.key []) stack cs
    | .key members => match readKey cs with
      | some (key, rest) => readValue fuel .value (.object members key :: stack) rest
      | none => none
    | .afterValue value => match stack, cs with
      | [], [] => some value
      | .array items :: stack, ',' :: rest =>
        readValue fuel .value (.array (value :: items) :: stack) rest
      | .array items :: stack, ']' :: rest =>
        readValue fuel (.afterValue (.array (value :: items).reverse)) stack rest
      | .object members key :: stack, ',' :: rest =>
        readValue fuel (.key ((key, value) :: members)) stack rest
      | .object members key :: stack, '\x7d' :: rest =>
        readValue fuel (.afterValue (.object ((key, value) :: members).reverse)) stack rest
      | _, _ => none

/-- Reads a text that holds one value, with all members that are written. Each step but the last
one of a container consumes a character, so three steps for each character are enough. -/
def parseWritten (text : String) : Option Json :=
  let cs := text.toList
  readValue (3 * cs.length + 3) .value [] cs

mutual

/-- The value in which no object repeats a key. -/
def settled : Json → Json
  | .array items => .array (settledItems items)
  | .object members => .object (Table.ofList (settledMembers members))
  | scalar => scalar

def settledItems : List Json → List Json
  | [] => []
  | item :: rest => item.settled :: settledItems rest

def settledMembers : List (String × Json) → List (String × Json)
  | [] => []
  | (key, value) :: rest => (key, value.settled) :: settledMembers rest

end

def parse (text : String) : Option Json := (parseWritten text).map settled

end ApiCollection.Json
