import ApiCollection.Pattern.Class

/-!
# Reading expressions

An expression is read from left to right with a stack of the groups that are still open. Every step
consumes at least one character. A text that is no expression has no reading: groups must close,
repetitions need something to repeat, and there are neither look-around groups nor back references.
There is no limit on how deep groups nest or how large an expression with its counts becomes.
-/

namespace ApiCollection.Pattern

open Text

structure OpenGroup where
  /-- The alternatives that are finished, the last one first. -/
  branches : List Expression := []
  /-- The parts of the alternative being read, the last one first. Switches stand as `none`: they
  match nothing and cannot be repeated. -/
  parts : List (Option Expression) := []

structure ReaderState where
  switches : Switches := {}
  group : OpenGroup := {}
  /-- The groups around it, the innermost first, with the switches that hold again behind them. -/
  outer : List (OpenGroup × Switches) := []
  names : List (List Char) := []

namespace OpenGroup

def branch (g : OpenGroup) : Expression := .sequence (g.parts.reverse.filterMap id)

def value (g : OpenGroup) : Expression := .choice (g.branch :: g.branches).reverse

def add (g : OpenGroup) (e : Expression) : OpenGroup := { g with parts := some e :: g.parts }

def split (g : OpenGroup) : OpenGroup := { branches := g.branch :: g.branches }

def repeatLast? (g : OpenGroup) (least : Nat) (most : Option Nat) : Option OpenGroup :=
  match g.parts with
  | some e :: parts => some { g with parts := some (.times e least most) :: parts }
  | _ => none

end OpenGroup

def Switches.set? (s : Switches) (value : Bool) : Char → Option Switches
  | 'i' => some { s with caseless := value }
  | 'm' => some { s with multiline := value }
  | 's' => some { s with dotAll := value }
  | 'R' => some { s with returns := value }
  | 'x' => some { s with verbose := value }
  | 'u' => some { s with unicode := value }
  | 'U' => some s
  | _ => none

/-- Reads letters of switches, none of them twice, up to a colon or a closing parenthesis. Those
behind a hyphen are turned off; a hyphen may not be the last. -/
def switches? (s : Switches) (on : Bool) (read : List Char) :
    List Char → Option (Switches × List Char × Char × List Char)
  | [] => none
  | c :: rest =>
    if c == ':' || c == ')' then
      if read.head? == some '-' then none else some (s, read, c, rest)
    else if read.contains c then none
    else if c == '-' then switches? s false (c :: read) rest
    else do switches? (← s.set? on c) on (c :: read) rest

def isNameChar (isFirst : Bool) (c : Char) : Bool :=
  if isFirst then c == '_' || CharSet.alphabetic c
  else c == '_' || c == '.' || c == '[' || c == ']' || isAlphanumeric c

def groupName? (cs : List Char) : Option (List Char × List Char) := do
  let (name, rest) ← cutAtChar? '>' cs
  let first :: others := name | none
  if isNameChar true first && others.all (isNameChar false) then some (name, rest) else none

namespace ReaderState

def add (st : ReaderState) (e : Expression) : ReaderState := { st with group := st.group.add e }

def openGroup (st : ReaderState) (inner : Switches) : ReaderState :=
  { st with switches := inner, group := {}, outer := (st.group, st.switches) :: st.outer }

def closeGroup? (st : ReaderState) : Option ReaderState :=
  match st.outer with
  | [] => none
  | (group, switches) :: outer =>
    some { st with switches := switches, group := group.add st.group.value, outer := outer }

def afterParenthesis? (st : ReaderState) (cs : List Char) : Option (ReaderState × List Char) :=
  let named (rest : List Char) : Option (ReaderState × List Char) := do
    let (name, rest) ← groupName? rest
    if st.names.contains name then none
    else some ({ st.openGroup st.switches with names := name :: st.names }, rest)
  match st.switches.skip cs with
  | '?' :: '=' :: _ | '?' :: '!' :: _ | '?' :: '<' :: '=' :: _ | '?' :: '<' :: '!' :: _ => none
  | '?' :: 'P' :: '<' :: rest | '?' :: '<' :: rest => named rest
  | '?' :: rest => do
    let (inner, letters, last, rest) ← switches? st.switches true [] rest
    if last == ':' then return (st.openGroup inner, rest)
    if letters.isEmpty then none
    let group := { st.group with parts := none :: st.group.parts }
    return ({ st with switches := inner, group := group }, rest)
  | cs => some (st.openGroup st.switches, cs)

/-- Skips the mark that makes a repetition prefer few rounds. -/
def skipLazy : List Char → List Char
  | '?' :: rest => rest
  | cs => cs

def repeatLast? (st : ReaderState) (least : Nat) (most : Option Nat) (rest : List Char) :
    Option (ReaderState × List Char) :=
  (st.group.repeatLast? least most).map fun g => ({ st with group := g }, rest)

/-- A decimal number below 2^32, with blanks around it. -/
def count? (s : Switches) (cs : List Char) : Option (Nat × List Char) :=
  digits (cs.dropWhile isBlank) cs.length [] |> fun (digits, rest) =>
    if digits.isEmpty then none
    else
      let n := digits.foldl (fun n d => n * 10 + (d.toNat - '0'.toNat)) 0
      if n < Nat.pow 2 32 then some (n, s.skip (rest.dropWhile isBlank)) else none
where
  digits (cs : List Char) (bound : Nat) (read : List Char) : List Char × List Char :=
    match bound, cs with
    | bound + 1, c :: rest =>
      if c.isDigit then digits (s.skip rest) bound (c :: read) else (read.reverse, cs)
    | _, cs => (read.reverse, cs)

/-- Reads the bounds of a counted repetition, behind its opening brace. -/
def counted? (st : ReaderState) (cs : List Char) : Option (ReaderState × List Char) := do
  let s := st.switches
  let (least, rest) ← count? s (s.skip cs)
  let close (most : Option Nat) (rest : List Char) : Option (ReaderState × List Char) :=
    match rest with
    | '}' :: rest =>
      if most.all (least ≤ ·) then st.repeatLast? least most (skipLazy (s.skip rest)) else none
    | _ => none
  match rest with
  | ',' :: rest =>
    match s.skip rest with
    | '}' :: rest => close none ('}' :: rest)
    | rest =>
      let (most, rest) ← count? s rest
      close (some most) rest
  | rest => close (some least) rest

def atom? (s : Switches) : Atom → Option Expression
  | .char c => (s.setOf? false (.one c)).map .char
  | .set members => some (.char members)
  | .assertion condition => some (.assertion condition)

def dot? (s : Switches) : Option Expression :=
  if !s.unicode then none
  else if s.dotAll then some (.char CharSet.all)
  else if s.returns then some (.char (CharSet.ofString "\r\n").compl)
  else some (.char (CharSet.one '\n').compl)

/-- Reads the next piece of an expression, beginning with a character. -/
def step? (st : ReaderState) (c : Char) (rest : List Char) : Option (ReaderState × List Char) :=
  let s := st.switches
  let condition (a : Assertion) : Option (ReaderState × List Char) :=
    some (st.add (.assertion a), rest)
  match c with
  | '(' => st.afterParenthesis? rest
  | ')' => st.closeGroup?.map fun st => (st, rest)
  | '|' => some ({ st with group := st.group.split }, rest)
  | '[' => (class? s rest).map fun (members, rest) => (st.add (.char members), rest)
  | '?' => st.repeatLast? 0 (some 1) (skipLazy rest)
  | '*' => st.repeatLast? 0 none (skipLazy rest)
  | '+' => st.repeatLast? 1 none (skipLazy rest)
  | '{' => st.counted? rest
  | '.' => (dot? s).map fun e => (st.add e, rest)
  | '^' => condition (if s.multiline then .lineStart s.returns else .textStart)
  | '$' => condition (if s.multiline then .lineEnd s.returns else .textEnd)
  | '\\' => do
    let (a, rest) ← escape? s rest
    return (st.add (← atom? s a), rest)
  | c => do return (st.add (← atom? s (.char (← s.charOf? c))), rest)

/-- Reads the rest of an expression. Every step consumes a character, so the length of the text
bounds their number. -/
def run? : Nat → ReaderState → List Char → Option Expression
  | 0, _, _ => none
  | n + 1, st, cs =>
    match st.switches.skip cs with
    | [] => if st.outer.isEmpty then some st.group.value else none
    | c :: rest => do
      let (st, rest) ← st.step? c rest
      run? n st rest

end ReaderState

def Expression.read? (text : List Char) : Option Expression :=
  ReaderState.run? (text.length + 1) {} text

end ApiCollection.Pattern
