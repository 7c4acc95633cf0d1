import ApiCollection.Proofs.BoundParameters
import ApiCollection.Proofs.WrittenTypes

/-!
# Directives with attributes

A directive has a name, which may be qualified, and an argument list whose attributes are keys with
strings. Whatever a string holds but quotes and backslashes, the parentheses around the list belong
together, and no comma of the list cuts a text of which the directive is a part.
-/

namespace ApiCollection.Java

open Text Binding
open WrittenBinding (Inert inert_of_plain inert_quotedText inert_blanks inert_assignmentText)

/-- Characters of names: those of identifiers but the signs of directives and attributes. -/
def isNameLetter (c : Char) : Bool := isIdentifierChar c && !(['@', '\'', '='].contains c)

def isQualifiedLetter (c : Char) : Bool := c == '.' || isNameLetter c

/-- An attribute, with the blanks around it and its equals sign. -/
structure AttributeText where
  gaps : Gaps
  key : List Char
  value : List Char

namespace AttributeText

def text (a : AttributeText) : List Char :=
  a.gaps.front ++ (assignmentText a.gaps a.key ++ (quotedText a.value ++ a.gaps.back))

/-- An attribute is well-formed when its key is a name and its string has no quotes and no
backslashes. -/
structure WellFormed (a : AttributeText) : Prop where
  blank : a.gaps.isBlank = true
  letters : a.key.all isNameLetter = true
  quote : '"' ∉ a.value
  backslash : '\\' ∉ a.value

end AttributeText

def attributeList (as : List AttributeText) : List Char :=
  joinWith [','] (as.map AttributeText.text)

/-- A directive, with the blanks before its argument list and behind it. -/
structure DirectiveText where
  qualified : List Char
  arguments : Option (List Char × List AttributeText)
  gap : List Char

namespace DirectiveText

def written (d : DirectiveText) : Written where
  qualified := d.qualified
  arguments := d.arguments.map fun (space, as) => (space, attributeList as)
  gap := d.gap

/-- A directive is well-formed when it has a name other than that of an interface declaration, and
well-formed attributes. -/
structure WellFormed (d : DirectiveText) : Prop where
  letters : d.qualified.all isQualifiedLetter = true
  named : lastPiece '.' d.qualified ≠ []
  declares : lastPiece '.' d.qualified ≠ "interface".toList
  space : ∀ space as, d.arguments = some (space, as) → space.all isAsciiBlank = true
  attributes : ∀ space as, d.arguments = some (space, as) → ∀ a ∈ as, a.WellFormed
  gap : d.gap.all isBlank = true

end DirectiveText

theorem isIdentifierChar_of_isNameLetter {c : Char} (h : isNameLetter c = true) :
    isIdentifierChar c = true := by
  rw [isNameLetter, Bool.and_eq_true] at h
  exact h.1

theorem isBlank_of_isQualifiedLetter {c : Char} (h : isQualifiedLetter c = true) :
    isBlank c = false := by
  rw [isQualifiedLetter, Bool.or_eq_true, beq_iff_eq] at h
  obtain rfl | letter := h
  · decide
  · exact isBlank_of_isIdentifierChar (isIdentifierChar_of_isNameLetter letter)

namespace AttributeText

variable {a : AttributeText} (wf : a.WellFormed)

include wf

private theorem inert_text : Inert a.text := by
  obtain ⟨front, -, -, back⟩ := Gaps.isBlank_iff.1 wf.blank
  have key : Inert a.key := by
    apply inert_of_plain
    intro c member signs
    have letter := List.all_eq_true.1 wf.letters c member
    simp only [List.mem_cons, List.not_mem_nil, or_false] at signs
    obtain rfl | rfl | rfl | rfl := signs <;> exact absurd letter (by decide)
  exact (inert_blanks front).append ((inert_assignmentText wf.blank key).append
    ((inert_quotedText wf.quote wf.backslash).append (inert_blanks back)))

/-- An attribute is a piece of its own, at any depth of brackets. -/
theorem balanced_text : Balanced ',' a.text := by
  obtain ⟨front, before, behind, back⟩ := Gaps.isBlank_iff.1 wf.blank
  have blanks {cs : List Char} (h : cs.all isBlank = true) : Balanced ',' cs :=
    balanced_of_plain (plain_of_class (by decide) h)
  have key : Balanced ',' a.key := balanced_of_plain (plain_of_class (by decide) wf.letters)
  have sign : Balanced ',' ['='] := balanced_of_plain rfl
  have assignment : Balanced ',' (assignmentText a.gaps a.key) :=
    key.append ((blanks before).append (sign.append (blanks behind)))
  exact (blanks front).append (assignment.append
    ((balanced_string (by decide) wf.quote wf.backslash).append (blanks back)))

end AttributeText

namespace DirectiveText

variable {d : DirectiveText} (wf : d.WellFormed)

include wf

/-- A directive is legible when the scan knows the characters of its name. -/
theorem legible_written (known : d.qualified.all isNameChar = true) : d.written.Legible where
  characters := known
  named := wf.named
  declares := wf.declares
  space space inside arguments := by
    obtain ⟨⟨space', as⟩, found, same⟩ := Option.map_eq_some_iff.1 arguments
    obtain ⟨rfl, -⟩ := Prod.mk.inj same
    exact wf.space space' as found
  enclosed space inside arguments := by
    obtain ⟨⟨space', as⟩, found, same⟩ := Option.map_eq_some_iff.1 arguments
    obtain ⟨-, rfl⟩ := Prod.mk.inj same
    have inert : Inert (attributeList as) := by
      refine joinWith_closed ⟨rfl, rfl⟩ (fun _ _ => Inert.append) ⟨rfl, rfl⟩ ?_
      rw [List.forall_mem_map]
      exact fun a member => AttributeText.inert_text (wf.attributes space' as found a member)
    rw [enclosed_iff, inert.run]
    exact ⟨inert.stays, rfl⟩

theorem balanced_written : Balanced ',' d.written.text := by
  have sign : Balanced ',' ['@'] := balanced_of_plain rfl
  have name : Balanced ',' d.qualified := balanced_of_plain (plain_of_class (by decide) wf.letters)
  refine sign.append (name.append ?_)
  rw [Written.argumentText, written]
  cases arguments : d.arguments with
  | none => exact balanced_nil
  | some found =>
    obtain ⟨space, as⟩ := found
    have blanks : Balanced ',' space :=
      balanced_of_plain (plain_of_class (by decide) (wf.space space as arguments))
    have inside : Sheltered ',' (attributeList as) := by
      refine (sheltered_separator (by decide)).joinWith ?_
      rw [List.forall_mem_map]
      exact fun a member =>
        (AttributeText.balanced_text (wf.attributes space as arguments a member)).sheltered
    exact blanks.append (@balanced_bracketed ',' (by decide) ('(', ')') (by decide) _ inside)

end DirectiveText

theorem balanced_leadText {sep : Char} {ws : List Written}
    (h : ∀ w ∈ ws, Balanced sep (w.text ++ w.gap)) : Balanced sep (leadText ws) := by
  induction ws with
  | nil => exact balanced_nil
  | cons w ws ih =>
    rw [List.forall_mem_cons] at h
    exact h.1.append (ih h.2)

end ApiCollection.Java
