import ApiCollection.Proofs.CandidateSweep

/-!
# Members one per line

The text of a class or an interface whose members are method declarations on lines of their own. A
line has the directives of its method, the return type, the name and the parameters, and then a
semicolon or a body in braces. Nothing else in such a text may look like a declaration.
-/

namespace ApiCollection.Java

open Text

/-- A directive as it is written, with the blanks behind it. -/
structure Written where
  qualified : List Char
  /-- The blanks before the argument list, and its inside. -/
  arguments : Option (List Char × List Char)
  gap : List Char

namespace Written

def argumentText (w : Written) : List Char :=
  w.arguments.elim [] fun (space, inside) => space ++ '(' :: (inside ++ [')'])

def text (w : Written) : List Char := '@' :: (w.qualified ++ w.argumentText)

def directive (w : Written) : Directive where
  name := String.ofList (lastPiece '.' w.qualified)
  args := w.arguments.map fun (_, inside) => String.ofList (trim inside)
  raw := String.ofList w.text

end Written

def leadText (ws : List Written) : List Char := ws.flatMap fun w => w.text ++ w.gap

/-- A return type: a name with dots, arguments in angle brackets, and array suffixes. -/
structure ReturnType where
  base : List Char
  arguments : Option (List Char)
  arrays : Nat

def ReturnType.text (t : ReturnType) : List Char :=
  t.base ++ (t.arguments.elim [] (fun inside => '<' :: (inside ++ ['>'])) ++
    (List.replicate t.arrays "[]".toList).flatten)

/-- What ends a member. -/
inductive Ending where
  | semicolon
  | body (inside : List Char)

def Ending.text : Ending → List Char
  | semicolon => [';']
  | body inside => '\x7b' :: (inside ++ ['\x7d'])

/-- A line with one member. -/
structure Member where
  indent : List Char
  directives : List Written
  type : ReturnType
  gap : List Char
  name : List Char
  parameters : List Char
  /-- The blanks behind the parameters. -/
  space : List Char
  ending : Ending
  /-- The blanks behind the member. -/
  trail : List Char

namespace Member

def declaration (m : Member) : List Char :=
  m.type.text ++ (m.gap ++ (m.name ++ '(' :: (m.parameters ++ ')' :: (m.space ++ m.ending.text))))

/-- The line without the blanks at its ends. -/
def content (m : Member) : List Char := leadText m.directives ++ m.declaration

def text (m : Member) : List Char := m.indent ++ (m.content ++ m.trail)

end Member

def memberLines (ms : List Member) : List Char := ms.flatMap fun m => '\n' :: m.text

/-- A class or an interface with its members. -/
structure Layout where
  /-- What stands before the brace that opens the class. -/
  opening : List Char
  /-- The blanks behind that brace. -/
  trail : List Char
  members : List Member
  /-- What follows the last member. -/
  closing : List Char

namespace Layout

def header (l : Layout) : List Char := l.opening ++ '\x7b' :: l.trail

def text (l : Layout) : List Char := l.header ++ (memberLines l.members ++ '\n' :: l.closing)

end Layout

/-- Whether the parentheses of a candidate are closed and something other than a body follows. -/
def Candidate.isDismissed (c : Candidate) : Bool :=
  (insideParens? c.behind).any fun (_, rest) => !allBlank rest && !continuesHead rest

/-- Whether nothing that begins in a text behind a character is a declaration. -/
def Calm (prev : Option Char) (cs : List Char) : Prop :=
  ∀ x ∈ candidates prev cs,
    insideWord x.1 = true ∨ x.2.isStatement = true ∨ x.2.isDismissed = true

instance (prev : Option Char) (cs : List Char) : Decidable (Calm prev cs) :=
  inferInstanceAs (Decidable (∀ x ∈ candidates prev cs, _ ∨ _))

/-- Whether all parentheses of a text are closed in it, and the one behind it closes the one before
it. -/
def Enclosed (cs : List Char) : Prop := insideParens? (cs ++ [')']) = some (cs, [])

instance (cs : List Char) : Decidable (Enclosed cs) :=
  inferInstanceAs (Decidable (insideParens? (cs ++ [')']) = some (cs, [])))

/-- A directive is well-formed when its name is one, and its arguments are enclosed and hold no
declaration. -/
structure Written.WellFormed (w : Written) : Prop where
  characters : w.qualified.all isNameChar = true
  named : lastPiece '.' w.qualified ≠ []
  declares : lastPiece '.' w.qualified ≠ "interface".toList
  space : ∀ space inside, w.arguments = some (space, inside) → space.all isTabOrSpace = true
  enclosed : ∀ space inside, w.arguments = some (space, inside) → Enclosed inside
  calm : ∀ space inside, w.arguments = some (space, inside) → Calm (some '(') inside
  gap : w.gap.all isTabOrSpace = true

/-- A directive is silent when nothing in it is a declaration. It may be followed by any blanks. -/
structure Written.Silent (w : Written) : Prop where
  characters : w.qualified.all isNameChar = true
  named : w.qualified ≠ []
  space : ∀ arguments ∈ w.arguments, arguments.1.all isBlank = true
  calm : ∀ arguments ∈ w.arguments, Calm (some '(') arguments.2
  gap : w.gap.all isBlank = true

instance (w : Written) : Decidable w.Silent :=
  decidable_of_iff (_ ∧ _ ∧ _ ∧ _ ∧ _) ⟨fun ⟨a, b, c, d, e⟩ => ⟨a, b, c, d, e⟩,
    fun ⟨a, b, c, d, e⟩ => ⟨a, b, c, d, e⟩⟩

theorem Written.WellFormed.silent {w : Written} (wf : w.WellFormed) : w.Silent where
  characters := wf.characters
  named := by
    intro empty
    have named := wf.named
    rw [empty] at named
    exact named rfl
  space := fun (space, inside) member => all_isBlank (wf.space space inside member)
  calm := fun (space, inside) member => wf.calm space inside member
  gap := all_isBlank wf.gap

structure ReturnType.WellFormed (t : ReturnType) : Prop where
  characters : t.base.all isDotted = true
  nonempty : t.base ≠ []
  arguments : ∀ inside, t.arguments = some inside → inside.all (fun c => !endsArguments c) = true

/-- A member is well-formed when its line is one line, its parts are what they are called, and its
parentheses are balanced. -/
structure Member.WellFormed (m : Member) : Prop where
  indent : m.indent.all isTabOrSpace = true
  directives : ∀ w ∈ m.directives, w.WellFormed
  /-- The last directive does not run into the type. -/
  parted : ∀ w, m.directives.getLast? = some w → w.arguments = none → w.gap ≠ []
  type : m.type.WellFormed
  gap : m.gap.all isTabOrSpace = true
  apart : m.gap ≠ []
  name : m.name.all isWordChar = true
  named : m.name ≠ []
  modifier : ¬methodModifiers.contains (String.ofList m.type.base)
  enclosed : Enclosed m.parameters
  calm : Calm (some '(') m.parameters
  space : m.space.all isTabOrSpace = true
  body : ∀ inside, m.ending = .body inside → Calm (some '\x7b') inside
  trail : m.trail.all isBlank = true
  oneLine : '\n' ∉ m.text
  balanced : parenBalance m.content = 0

structure Layout.WellFormed (l : Layout) : Prop where
  opening : Calm none l.opening
  trail : l.trail.all isBlank = true
  oneLine : '\n' ∉ l.trail
  members : ∀ m ∈ l.members, m.WellFormed
  closing : Calm (some '\n') l.closing

def Written.endsInModifier (w : Written) : Bool :=
  w.arguments.isNone && methodModifiers.any fun word => word.toList.isSuffixOf w.qualified

/-- Whether a member looks like a statement, or is read together with a modifier in the name of its
last directive. -/
def Member.isHidden (m : Member) : Bool :=
  m.directives.getLast?.any Written.endsInModifier ||
    (Candidate.mk [] m.type.text m.name []).isStatement

end ApiCollection.Java
