import ApiCollection.Pattern.CharSet

/-!
# Expressions and the texts they match

An expression is matched against a piece of a text, from one position to another. Only where a match
can end matters here, so choices have no order: `after` maps the positions where matches begin to
the positions where they may end.
-/

namespace ApiCollection.Pattern

open Text

/-- A condition on a position of a text. -/
inductive Assertion where
  | textStart
  | textEnd
  /-- The beginning of a line; `returns` says that carriage returns end lines, too. -/
  | lineStart (returns : Bool)
  | lineEnd (returns : Bool)
  | wordBoundary (unicode : Bool)
  | noWordBoundary (unicode : Bool)
  | wordStart (unicode : Bool)
  | wordEnd (unicode : Bool)
  /-- No word character precedes. -/
  | wordStartHalf (unicode : Bool)
  /-- No word character follows. -/
  | wordEndHalf (unicode : Bool)
  deriving DecidableEq, Repr

/-- A regular expression with assertions and counted repetition. -/
inductive Expression where
  | empty
  | char (set : CharSet)
  | assertion (condition : Assertion)
  | seq (first second : Expression)
  | either (left right : Expression)
  /-- A number of matches one behind the other, at least `least` and at most `most`. -/
  | times (body : Expression) (least : Nat) (most : Option Nat)

def Assertion.holds (before after : Option Char) : Assertion → Bool
  | .textStart => before.isNone
  | .textEnd => after.isNone
  | .lineStart false => before.all (· == '\n')
  | .lineEnd false => after.all (· == '\n')
  | .lineStart true => before.all (· == '\n') || (before == some '\r' && after != some '\n')
  | .lineEnd true => after.all (· == '\r') || (after == some '\n' && before != some '\r')
  | .wordBoundary u => before.any (inWord u) != after.any (inWord u)
  | .noWordBoundary u => before.any (inWord u) == after.any (inWord u)
  | .wordStart u => !before.any (inWord u) && after.any (inWord u)
  | .wordEnd u => before.any (inWord u) && !after.any (inWord u)
  | .wordStartHalf u => !before.any (inWord u)
  | .wordEndHalf u => !after.any (inWord u)
where
  inWord (unicode : Bool) (c : Char) : Bool :=
    if unicode then isWordChar c else c.isAlphanum || c == '_'

def addPositions (known new : List Nat) : List Nat := known ++ new.filter fun p => !known.contains p

@[simp] theorem mem_addPositions {known new : List Nat} {p : Nat} :
    p ∈ addPositions known new ↔ p ∈ known ∨ p ∈ new := by
  by_cases h : p ∈ known <;> simp [addPositions, h]

/-- What at most `rounds` steps reach, the start included. -/
def reach (step : List Nat → List Nat) : Nat → List Nat → List Nat
  | 0, known => known
  | rounds + 1, known =>
    let next := addPositions known (step known)
    if next.length == known.length then known else reach step rounds next

/-- What exactly `rounds` steps reach. -/
def repeated (step : List Nat → List Nat) : Nat → List Nat → List Nat
  | 0, known => known
  | rounds + 1, known => repeated step rounds (step known)

namespace Expression

/-- Where the matches that begin at one of the given positions may end. A repetition of more rounds
than the text has characters repeats an empty match, and then any number of rounds will do. -/
def after (text : Array Char) : Expression → List Nat → List Nat
  | empty, starts => starts
  | char set, starts => (starts.filter fun p => text[p]?.any set).map (· + 1)
  | assertion condition, starts =>
    starts.filter fun p => condition.holds (if p = 0 then none else text[p - 1]?) text[p]?
  | seq first second, starts => second.after text (first.after text starts)
  | either left right, starts => addPositions (left.after text starts) (right.after text starts)
  | times body least most, starts =>
    let enough := text.size + 1
    let begun := repeated (body.after text) (min least enough) starts
    reach (body.after text) (most.elim enough fun n => min (n - least) enough) begun

/-- A match of one character ends one position further. -/
theorem mem_after_char {text : Array Char} {set : CharSet} {starts : List Nat} {p : Nat} :
    p ∈ (char set).after text starts ↔
      ∃ start ∈ starts, (∃ c, text[start]? = some c ∧ set c) ∧ p = start + 1 := by
  simp only [after, List.mem_map, List.mem_filter, Option.any_eq_true, eq_comm (a := p)]
  constructor
  · rintro ⟨start, ⟨hs, hc⟩, rfl⟩
    exact ⟨start, hs, hc, rfl⟩
  · rintro ⟨start, hs, hc, rfl⟩
    exact ⟨start, ⟨hs, hc⟩, rfl⟩

/-- A match of two expressions one behind the other passes a position between them. -/
@[simp] theorem after_seq (text : Array Char) (first second : Expression) (starts : List Nat) :
    (seq first second).after text starts = second.after text (first.after text starts) := rfl

@[simp] theorem mem_after_either {text : Array Char} {left right : Expression} {starts : List Nat}
    {p : Nat} : p ∈ (either left right).after text starts ↔
      p ∈ left.after text starts ∨ p ∈ right.after text starts := mem_addPositions

def matchesIn (e : Expression) (text : List Char) : Bool :=
  !(e.after text.toArray (List.range (text.length + 1))).isEmpty

def sequence : List Expression → Expression
  | [] => empty
  | [e] => e
  | e :: es => seq e (sequence es)

def choice : List Expression → Expression
  | [] => char CharSet.none
  | [e] => e
  | e :: es => either e (choice es)

end Expression
end ApiCollection.Pattern
