import ApiCollection.Pattern.Escape

/-!
# Bracketed classes

A bracketed class lists characters, ranges, escapes and further classes, and combines such lists by
intersection, difference and symmetric difference, from left to right. Classes that are still open
form a stack, and every step of the reader consumes a character.
-/

namespace ApiCollection.Pattern

open Text

/-- A combination of two lists of a class. -/
inductive SetOperator where
  | inter
  | diff
  | symmDiff
  deriving DecidableEq, Repr

def SetOperator.apply : SetOperator → CharSet → CharSet → CharSet
  | inter => CharSet.inter
  | diff => CharSet.diff
  | symmDiff => CharSet.symmDiff

structure OpenClass where
  negated : Bool
  /-- The operand on the left and its operator, if there is one. -/
  left : Option (CharSet × SetOperator) := none
  /-- The list that is being read. -/
  items : CharSet := CharSet.none

namespace OpenClass

def add (k : OpenClass) (set : CharSet) : OpenClass := { k with items := k.items.union set }

/-- The set read so far. Operands are taken without regard to case, where that is asked for. -/
def value (s : Switches) (k : OpenClass) : CharSet :=
  match k.left with
  | none => k.items
  | some (left, operator) => operator.apply (folded left) (folded k.items)
where
  folded (set : CharSet) : CharSet :=
    if !s.caseless then set else if s.unicode then set.caseless else set.caselessAscii

def operate (s : Switches) (k : OpenClass) (operator : SetOperator) : OpenClass :=
  { k with left := some (k.value s, operator), items := CharSet.none }

/-- Leading hyphens of a class stand for themselves. -/
def leadingHyphens (s : Switches) (k : OpenClass) : Nat → List Char → OpenClass × List Char
  | 0, cs => (k, cs)
  | n + 1, cs => match cs with
    | '-' :: rest => leadingHyphens s (k.add (.one '-')) n (s.skip rest)
    | cs => (k, cs)

/-- Opens a class behind its bracket. A caret negates it; then hyphens, or one closing bracket,
stand for themselves. -/
def ofOpening (s : Switches) (cs : List Char) : OpenClass × List Char :=
  let (negated, cs) := match s.skip cs with
    | '^' :: rest => (true, s.skip rest)
    | cs => (false, cs)
  let k : OpenClass := { negated := negated }
  match cs with
  | ']' :: rest => (k.add (.one ']'), s.skip rest)
  | cs => leadingHyphens s k cs.length cs

end OpenClass

/-- A named set behind an opening bracket inside a class: `:name:]`, possibly with a caret. -/
def namedSet? (s : Switches) (cs : List Char) : Option (Option CharSet × List Char) := do
  let cs ← after? [':'] cs
  let (negated, cs) := match cs with
    | '^' :: rest => (true, rest)
    | cs => (false, cs)
  let (name, rest) ← cutAtChar? ':' cs
  let rest ← after? [']'] rest
  return (s.setOf? negated (← CharSet.named? name), rest)

def classAtom? (s : Switches) : List Char → Option (Atom × List Char)
  | [] => none
  | '\\' :: rest => escape? s rest
  | c :: rest => (s.charOf? c).map fun c => (.char c, rest)

/-- The set of one atom; assertions have none. -/
def Atom.set? : Atom → Option CharSet
  | .char c => some (.one c)
  | .set members => some members
  | .assertion _ => none

/-- One item of a class: an atom, or a range of two characters. A hyphen before a closing bracket or
another hyphen makes no range. -/
def classItem? (s : Switches) (cs : List Char) : Option (CharSet × List Char) := do
  let (first, rest) ← classAtom? s cs
  let single : Option (CharSet × List Char) := first.set?.map fun set => (set, s.skip rest)
  match s.skip rest with
  | '-' :: behind =>
    match s.skip behind with
    | [] => none
    | ']' :: _ | '-' :: _ => single
    | next =>
      match first, ← classAtom? s next with
      | .char a, (.char b, rest) => if a ≤ b then some (.range a b, rest) else none
      | _, _ => none
  | [] => none
  | _ => single

/-- Reads a class up to the bracket that closes the outermost one. -/
def classFrom? (s : Switches) : Nat → OpenClass → List OpenClass → List Char →
    Option (CharSet × List Char)
  | 0, _, _, _ => none
  | n + 1, k, outer, cs => match s.skip cs with
    | [] => none
    | '[' :: rest =>
      match namedSet? s rest with
      | some (set?, rest) => set?.bind fun set => classFrom? s n (k.add set) outer rest
      | none =>
        let (inner, rest) := OpenClass.ofOpening s rest
        classFrom? s n inner (k :: outer) rest
    | ']' :: rest => do
      let set ← s.setOf? k.negated (k.value s)
      match outer with
      | [] => return (set, rest)
      | parent :: outer => classFrom? s n (parent.add set) outer rest
    | '&' :: '&' :: rest => classFrom? s n (k.operate s .inter) outer rest
    | '-' :: '-' :: rest => classFrom? s n (k.operate s .diff) outer rest
    | '~' :: '~' :: rest => classFrom? s n (k.operate s .symmDiff) outer rest
    | cs => do
      let (set, rest) ← classItem? s cs
      classFrom? s n (k.add set) outer rest

def class? (s : Switches) (cs : List Char) : Option (CharSet × List Char) :=
  let (k, rest) := OpenClass.ofOpening s cs
  classFrom? s (cs.length + 1) k [] rest

end ApiCollection.Pattern
