import ApiCollection.Proofs.FinishedCollection
import ApiCollection.Proofs.PathSweep
import Mathlib.Data.List.TakeWhile

/-!
# Path variables

A path variable is a word in braces, perhaps with a pattern for its values. Extraction looks for
path variables anywhere in a path, conversion puts a colon in the place of the braces of a segment,
and enhancement takes all that stands behind the colon for the name of a parameter.
-/

namespace ApiCollection

open Text Conversion Enhancement

structure PathVariable where
  name : List Char
  pattern? : Option (List Char)
  nonempty : name ≠ []
  word : ∀ c ∈ name, isWordChar c = true
  plain : ∀ pattern ∈ pattern?, '/' ∉ pattern ∧ '\x7b' ∉ pattern ∧ '\x7d' ∉ pattern

namespace PathVariable

def constraint (v : PathVariable) : List Char := (v.pattern?.map (':' :: ·)).getD []

def inside (v : PathVariable) : List Char := v.name ++ v.constraint

def text (v : PathVariable) : List Char := '\x7b' :: (v.inside ++ ['\x7d'])

def key (v : PathVariable) : String := String.ofList v.name

/-- Whether the variable is a whole segment of a path, behind the text `front` and a slash. -/
def At (v : PathVariable) (path : String) (front : List Char) : Prop :=
  ∃ back, path.toList = front ++ '/' :: (v.text ++ back) ∧ ∀ c ∈ back.head?, c = '/'

variable (v : PathVariable)

theorem not_mem_name {c : Char} (h : isWordChar c = false) : c ∉ v.name := by
  intro member
  have letter := v.word c member
  rw [h] at letter
  cases letter

theorem not_mem_inside {c : Char} (noLetter : isWordChar c = false) (noColon : c ≠ ':')
    (pattern : ∀ pattern ∈ v.pattern?, c ∉ pattern) : c ∉ v.inside := by
  have constraint : c ∉ v.constraint := by
    rw [PathVariable.constraint]
    cases h : v.pattern? with
    | none => exact List.not_mem_nil
    | some p =>
      rw [Option.map_some, Option.getD_some, List.mem_cons, not_or]
      exact ⟨noColon, pattern p h⟩
  rw [inside, List.mem_append, not_or]
  exact ⟨v.not_mem_name noLetter, constraint⟩

private theorem closing_not_mem_inside : '\x7d' ∉ v.inside :=
  v.not_mem_inside (by decide) (by decide) fun p h => (v.plain p h).2.2

private theorem slash_not_mem_text : '/' ∉ v.text := by
  have inside : '/' ∉ v.inside :=
    v.not_mem_inside (by decide) (by decide) fun p h => (v.plain p h).1
  simp [text, inside]

/-- A whole segment is the one behind the segments of the text in front. -/
theorem slashSegments_of_at {path : String} {front : List Char} (h : v.At path front) :
    (slashSegments path)[(slashSegments (String.ofList front)).length]? = some v.text := by
  obtain ⟨back, same, stop⟩ := h
  have slash (xs ys : List Char) :
      splitAtChar '/' (xs ++ '/' :: ys) = splitAtChar '/' xs ++ splitAtChar '/' ys :=
    splitWhere_append (p := (· == '/')) (beq_self_eq_true '/') xs ys
  have whole : splitAtChar '/' v.text = [v.text] := by
    refine splitWhere_of_none fun c member => ?_
    exact beq_eq_false_iff_ne.2 fun same => v.slash_not_mem_text (same ▸ member)
  obtain ⟨later, split⟩ : ∃ later, splitAtChar '/' (v.text ++ back) = v.text :: later := by
    cases back with
    | nil => exact ⟨[], by rw [List.append_nil, whole]⟩
    | cons c back =>
      refine ⟨splitAtChar '/' back, ?_⟩
      rw [stop c rfl, slash, whole]
      rfl
  have kept : (!v.text.isEmpty) = true := rfl
  rw [slashSegments, slashSegments, same, String.toList_ofList, slash, split, List.filter_append,
    List.filter_cons, if_pos kept, List.getElem?_append_right (Nat.le_refl _), Nat.sub_self]
  rfl

/-- Conversion puts a colon in the place of the braces, and keeps the pattern. -/
theorem colonSegment_text : colonSegment v.text = ':' :: v.inside := by
  have cut := cutAtChar?_append v.closing_not_mem_inside []
  rw [text, colonSegment, if_pos (beq_self_eq_true _)]
  split
  · rename_i found
    obtain ⟨rfl, rfl⟩ := Prod.mk.inj (Option.some.inj (cut.symm.trans found))
    rw [colonSegment, List.append_nil]
  · rename_i found
    cases cut.symm.trans found

private theorem colon_not_mem_variableName (name : String) :
    ':' ∉ (variableName v.key name).toList := by
  have own : ':' ∉ v.key.toList := by
    rw [key, String.toList_ofList]
    exact v.not_mem_name (by decide)
  have guessed : ':' ∉ (identifierVariable name).toList := by
    have table : ∀ e ∈ identifierVariables, ':' ∉ e.2.toList := by decide
    rw [identifierVariable]
    cases found : identifierVariables.find? fun e => occursIn e.1.toList (lower name.toList) with
    | none => decide
    | some e => exact table e (List.mem_of_find?_eq_some found)
  rw [variableName]
  split
  · exact own
  · split
    · exact guessed
    · exact own

private theorem variableName_of_colon {parameter : String} (h : ':' ∈ parameter.toList)
    (name : String) :
    variableName parameter name = parameter := by
  have other : ¬(parameter == "id") = true := by
    intro same
    rw [beq_iff_eq.1 same] at h
    exact absurd h (by decide)
  rw [variableName, if_neg other]
  split <;> rfl

/-- What stands in the braces suggests the variable of the name exactly when there is no pattern. -/
theorem variableName_inside_iff (name : String) :
    variableName (String.ofList v.inside) name = variableName v.key name ↔ v.pattern? = none := by
  constructor
  · intro same
    cases h : v.pattern? with
    | none => rfl
    | some pattern =>
      have colon : ':' ∈ (String.ofList v.inside).toList := by
        simp [inside, constraint, h]
      rw [variableName_of_colon colon] at same
      exact absurd (same ▸ colon) (v.colon_not_mem_variableName name)
  · intro h
    rw [inside, constraint, h, Option.map_none, Option.getD_none, List.append_nil, key]

end PathVariable

namespace PathVariable

/-- Extraction finds a path variable, unless a brace in front of it is open. -/
theorem key_mem_templateVariables (v : PathVariable) {path : String} {front : List Char}
    (h : v.At path front) (closed : ClosedBraces front) :
    v.key ∈ Draft.templateVariables path := by
  obtain ⟨back, same, -⟩ := h
  have named : Template.Named isWordChar ⟨v.name, v.pattern?⟩ :=
    ⟨v.nonempty, List.all_eq_true.2 v.word, fun pattern h => (v.plain pattern h).2.2⟩
  have text : path.toList =
      (front ++ ['/']) ++ '\x7b' :: (v.inside ++ '\x7d' :: back) := by
    rw [same, PathVariable.text]
    simp
  rw [Draft.templateVariables, text]
  exact Template.reads_templateVariable?.mem_sweep (closed.concat (by decide))
    ⟨_, ⟨named, rfl⟩, rfl⟩ back

end PathVariable
end ApiCollection
