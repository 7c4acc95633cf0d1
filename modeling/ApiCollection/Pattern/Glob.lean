import ApiCollection.Pattern.Reading

/-!
# Glob patterns for paths

A pattern is an expression in which a full stop stands for itself, two stars for any text on a line
and one star for any text without a slash. It is looked for anywhere in a path, whose backslashes
count as slashes. A pattern that is no expression matches nothing; in a list of patterns it is as if
it were not there.
-/

namespace ApiCollection.Pattern

open Text

inductive GlobToken where
  | anything
  | withinSegment
  | char (c : Char)
  deriving DecidableEq, Repr

/-- The pieces of a pattern. Stars pair up from the left. -/
def globTokens : List Char → List GlobToken
  | '*' :: '*' :: rest => .anything :: globTokens rest
  | '*' :: rest => .withinSegment :: globTokens rest
  | c :: rest => .char c :: globTokens rest
  | [] => []

def GlobToken.source : GlobToken → List Char
  | anything => ".*".toList
  | withinSegment => "[^/]*".toList
  | char '.' => "\\.".toList
  | char c => [c]

def globSource (pattern : List Char) : List Char := (globTokens pattern).flatMap GlobToken.source

/-- A pattern without stars has one piece for each character. -/
theorem globTokens_of_no_star {pattern : List Char} (h : '*' ∉ pattern) :
    globTokens pattern = pattern.map .char := by
  induction pattern with
  | nil => rfl
  | cons c rest ih =>
    obtain ⟨hc, hr⟩ : c ≠ '*' ∧ '*' ∉ rest := by simpa [eq_comm] using h
    rw [globTokens, ih hr, List.map_cons]
    · rintro rest rfl
      exact absurd rfl hc
    · rintro rfl
      exact absurd rfl hc

def globExpression? (pattern : String) : Option Expression :=
  Expression.read? (globSource pattern.toList)

def slashed (path : String) : List Char := replaceChar '\\' '/' path.toList

/-- Whether a pattern matches a path. -/
def globMatches (pattern path : String) : Bool :=
  (globExpression? pattern).any fun e => e.matchesIn (slashed path)

/-- The patterns of a list whose separators are commas. -/
def patternList (list : String) : List String :=
  (((splitAtChar ',' list.toList).map trim).filter fun p => !p.isEmpty).map String.ofList

structure Filter where
  /-- Patterns of which one has to match, unless there is none. -/
  wanted : List String := []
  /-- Patterns of which none may match. -/
  unwanted : List String := []
  deriving DecidableEq, Repr

namespace Filter

def anyMatches (expressions : List Expression) (path : String) : Bool :=
  expressions.any fun e => e.matchesIn (slashed path)

/-- Keeps the paths that match the wanted patterns and none of the unwanted ones, in order. A list
without any expression restricts nothing. -/
def apply (f : Filter) (path : α → String) (files : List α) : List α :=
  let wanted := f.wanted.filterMap globExpression?
  let unwanted := f.unwanted.filterMap globExpression?
  let kept := if wanted.isEmpty then files else files.filter fun x => anyMatches wanted (path x)
  if unwanted.isEmpty then kept else kept.filter fun x => !anyMatches unwanted (path x)

end Filter
end ApiCollection.Pattern
