import ApiCollection.Proofs.Calls
import ApiCollection.Proofs.MemberHeads

/-!
# Signatures

A signature is a return type with a call behind it, and a declaration is a signature behind modifiers
and type parameters. Its first character begins a candidate, whatever follows the parenthesis of the
call.
-/

namespace ApiCollection.Java

open Text

/-- A return type as it is written, with the blanks before its brackets. -/
structure SpacedType where
  base : List Char
  /-- The blanks before the arguments, and their inside. -/
  arguments : Option (List Char × List Char)
  /-- The blanks before each array suffix. -/
  arrays : List (List Char)

def arrayText (arrays : List (List Char)) : List Char := arrays.flatMap (· ++ "[]".toList)

namespace SpacedType

def argumentText (t : SpacedType) : List Char :=
  t.arguments.elim [] fun (blanks, inside) => blanks ++ '<' :: (inside ++ ['>'])

def text (t : SpacedType) : List Char := t.base ++ (t.argumentText ++ arrayText t.arrays)

end SpacedType

/-- A return type with the name behind it. -/
structure Signature where
  type : SpacedType
  call : Call

def Signature.text (s : Signature) (behind : List Char) : List Char :=
  s.type.text ++ s.call.text behind

/-- A list of type parameters: what stands before its first inner list, the inside of each inner list
with what stands behind that, and the blanks behind the whole list. -/
structure TypeParameters where
  front : List Char
  inner : List (List Char × List Char)
  gap : List Char

namespace TypeParameters

def inside (t : TypeParameters) : List Char :=
  t.front ++ t.inner.flatMap fun (inside, behind) => '<' :: (inside ++ '>' :: behind)

def text (t : TypeParameters) : List Char := '<' :: (t.inside ++ '>' :: t.gap)

end TypeParameters

def modifierText (ms : List (String × List Char)) : List Char :=
  ms.flatMap fun (word, blanks) => word.toList ++ blanks

/-- A signature behind modifiers, each with the blanks behind it, and type parameters. -/
structure Declaration where
  modifiers : List (String × List Char)
  typeParameters : Option TypeParameters
  signature : Signature

namespace Declaration

def generic (d : Declaration) (behind : List Char) : List Char :=
  d.typeParameters.elim [] TypeParameters.text ++ d.signature.text behind

def text (d : Declaration) (behind : List Char) : List Char :=
  modifierText d.modifiers ++ d.generic behind

end Declaration

structure SpacedType.WellFormed (t : SpacedType) : Prop where
  characters : t.base.all isDotted = true
  nonempty : t.base ≠ []
  arguments : ∀ found ∈ t.arguments, found.1.all isBlank = true ∧
    found.2.all (fun c => !endsArguments c) = true
  arrays : ∀ blanks ∈ t.arrays, blanks.all isBlank = true

structure Signature.WellFormed (s : Signature) : Prop where
  type : s.type.WellFormed
  modifier : ¬methodModifiers.contains (String.ofList s.type.base)
  call : s.call.WellFormed

/-- The characters of type parameters other than angle brackets. -/
def isParameterChar (c : Char) : Bool := !endsArguments c && c != '<' && c != '>'

structure TypeParameters.WellFormed (t : TypeParameters) : Prop where
  front : t.front.all isParameterChar = true
  inner : ∀ list ∈ t.inner, list.1.all isParameterChar = true ∧ list.2.all isParameterChar = true
  gap : t.gap.all isBlank = true
  apart : t.gap ≠ []

def AreModifiers (ms : List (String × List Char)) : Prop :=
  ∀ m ∈ ms, m.1 ∈ methodModifiers ∧ m.2.all isBlank = true ∧ m.2 ≠ []

structure Declaration.WellFormed (d : Declaration) : Prop where
  modifiers : AreModifiers d.modifiers
  typeParameters : ∀ t ∈ d.typeParameters, t.WellFormed
  signature : d.signature.WellFormed

instance (t : SpacedType) : Decidable t.WellFormed :=
  decidable_of_iff (_ ∧ _ ∧ _ ∧ _) ⟨fun ⟨a, b, c, d⟩ => ⟨a, b, c, d⟩,
    fun ⟨a, b, c, d⟩ => ⟨a, b, c, d⟩⟩

instance (s : Signature) : Decidable s.WellFormed :=
  decidable_of_iff (_ ∧ _ ∧ _) ⟨fun ⟨a, b, c⟩ => ⟨a, b, c⟩, fun ⟨a, b, c⟩ => ⟨a, b, c⟩⟩

instance (t : TypeParameters) : Decidable t.WellFormed :=
  decidable_of_iff (_ ∧ _ ∧ _ ∧ _) ⟨fun ⟨a, b, c, d⟩ => ⟨a, b, c, d⟩,
    fun ⟨a, b, c, d⟩ => ⟨a, b, c, d⟩⟩

instance (ms : List (String × List Char)) : Decidable (AreModifiers ms) :=
  inferInstanceAs (Decidable (∀ m ∈ ms, m.1 ∈ methodModifiers ∧ m.2.all isBlank = true ∧ m.2 ≠ []))

instance (d : Declaration) : Decidable d.WellFormed :=
  decidable_of_iff (_ ∧ _ ∧ _) ⟨fun ⟨a, b, c⟩ => ⟨a, b, c⟩, fun ⟨a, b, c⟩ => ⟨a, b, c⟩⟩

theorem endsArguments_of {p : Char → Bool} (stops : ";\x7b\x7d()=".toList.all (!p ·) = true)
    {c : Char} (h : p c = true) : endsArguments c = false := by
  by_contra ends
  rw [Bool.not_eq_false, endsArguments, endsTypeParameters] at ends
  have member : c ∈ [';', '\x7b', '\x7d', '(', ')', '='] := by simpa [or_assoc] using ends
  have other := List.all_eq_true.1 stops c member
  rw [h] at other
  cases other

theorem endsArguments_of_isBlank {c : Char} (h : isBlank c = true) : endsArguments c = false :=
  endsArguments_of (by decide) h

theorem endsArguments_of_isDotted {c : Char} (h : isDotted c = true) : endsArguments c = false :=
  endsArguments_of (by decide) h

/-- A return type has no blanks at its ends. -/
theorem trim_type {t : SpacedType} (wf : t.WellFormed) : trim t.text = t.text := by
  have bracket : isBlank ']' = false ∧ isBlank '>' = false := by decide
  have base (c : Char) (member : c ∈ t.base) : isBlank c = false :=
    (of_isDotted (List.all_eq_true.1 wf.characters c member)).1
  have first : t.text.head? = some (t.base.head wf.nonempty) := by
    rw [SpacedType.text, List.head?_append_of_ne_nil _ wf.nonempty, List.head?_eq_some_head]
  have last : ∃ d, t.text.getLast? = some d ∧ isBlank d = false := by
    rw [SpacedType.text]
    obtain empty | ⟨arrays, blanks, same⟩ := List.eq_nil_or_concat t.arrays
    · have none' : arrayText t.arrays = [] := by rw [empty]; rfl
      rw [none', List.append_nil, SpacedType.argumentText]
      cases t.arguments with
      | none =>
        rw [Option.elim_none, List.append_nil, List.getLast?_eq_some_getLast wf.nonempty]
        exact ⟨_, rfl, base _ (List.getLast_mem wf.nonempty)⟩
      | some found =>
        have text : t.base ++ (found.1 ++ '<' :: (found.2 ++ ['>'])) =
            (t.base ++ (found.1 ++ '<' :: found.2)) ++ ['>'] := by simp
        rw [Option.elim_some, text, List.getLast?_concat]
        exact ⟨'>', rfl, bracket.2⟩
    · exact ⟨']', by simp [same, arrayText], bracket.1⟩
  obtain ⟨d, last, unblank⟩ := last
  have start : t.text.head?.any isBlank = false := by
    rw [first, Option.any_some, base _ (List.head_mem wf.nonempty)]
  rw [trim, trimStart_of_head? start, trimEnd_of_getLast? last unblank]

/-- The ends of arguments that stand in a text in front of another one. -/
theorem mem_argumentEnds_append {inside rest e : List Char}
    (h : e ∈ argumentEnds (inside ++ rest)) :
    e ∈ argumentEnds rest ∨ ∃ z, z <:+ inside ∧ e = z ++ rest := by
  induction inside with
  | nil => exact Or.inl h
  | cons c inside ih =>
    have later (h : e ∈ argumentEnds (inside ++ rest)) :
        e ∈ argumentEnds rest ∨ ∃ z, z <:+ c :: inside ∧ e = z ++ rest := by
      obtain behind | ⟨z, suffix, same⟩ := ih h
      · exact Or.inl behind
      · exact Or.inr ⟨z, suffix.trans (List.suffix_cons c inside), same⟩
    rw [List.cons_append, argumentEnds] at h
    split at h
    · cases h
    · split at h
      · obtain h | here := List.mem_append.1 h
        · exact later h
        · exact Or.inr ⟨inside, List.suffix_cons c inside, List.mem_singleton.1 here⟩
      · exact later h

/-- No arguments end in front of a character that cannot stand in them. -/
theorem argumentEnds_before {c : Char} (ends : endsArguments c = true) {z : List Char}
    (h : '>' ∉ z) (behind : List Char) : argumentEnds (z ++ c :: behind) = [] := by
  induction z with
  | nil => rw [List.nil_append, argumentEnds, if_pos ends]
  | cons d z ih =>
    rw [List.mem_cons, not_or] at h
    rw [List.cons_append, argumentEnds, ih h.2]
    split
    · rfl
    · rw [if_neg]
      intro same
      exact h.1 (beq_iff_eq.1 same).symm

/-- The last angle bracket in front of the parenthesis is the first one that is tried. -/
theorem argumentEnds_inside {inside y : List Char}
    (h : inside.all (fun c => !endsArguments c) = true) (last : argumentEnds y = []) :
    ∃ ends, argumentEnds (inside ++ '>' :: y) = y :: ends := by
  induction inside with
  | nil =>
    refine ⟨[], ?_⟩
    rw [List.nil_append, argumentEnds, if_neg (by decide), if_pos (by decide), last]
    rfl
  | cons c inside ih =>
    rw [List.all_cons, Bool.and_eq_true, Bool.not_eq_true'] at h
    obtain ⟨ends, same⟩ := ih h.2
    rw [List.cons_append, argumentEnds, if_neg (by simp [h.1]), same]
    split
    · exact ⟨_, rfl⟩
    · exact ⟨ends, rfl⟩

def isArrayChar (c : Char) : Bool := isBlank c || c == '[' || c == ']'

theorem arrayText_characters {arrays : List (List Char)}
    (blank : ∀ blanks ∈ arrays, blanks.all isBlank = true) :
    (arrayText arrays).all isArrayChar = true := by
  rw [arrayText, List.all_flatMap, List.all_eq_true]
  intro blanks member
  rw [List.all_append, Bool.and_eq_true, List.all_eq_true]
  refine ⟨fun c hc => ?_, by decide⟩
  rw [isArrayChar, List.all_eq_true.1 (blank blanks member) c hc]
  rfl

private theorem skipArraySuffixes_arrayText {arrays : List (List Char)}
    (blank : ∀ blanks ∈ arrays, blanks.all isBlank = true) {rest : List Char}
    (none' : after? "[]".toList (trimStart rest) = none) :
    skipArraySuffixes (arrayText arrays ++ rest) = rest := by
  induction arrays with
  | nil =>
    change skipArraySuffixes rest = rest
    rw [skipArraySuffixes, afterArraySuffix?, none']
  | cons blanks arrays ih =>
    rw [List.forall_mem_cons] at blank
    have bracket : isBlank '[' = false := by decide
    have next : afterArraySuffix? (blanks ++ ("[]".toList ++ (arrayText arrays ++ rest))) =
        some (arrayText arrays ++ rest) := by
      rw [afterArraySuffix?,
        @trimStart_blanks _ blank.1 ("[]".toList ++ (arrayText arrays ++ rest)) bracket,
        after?_eq_some_iff]
    have text : arrayText (blanks :: arrays) ++ rest =
        blanks ++ ("[]".toList ++ (arrayText arrays ++ rest)) := by
      simp [arrayText]
    rw [text, skipArraySuffixes, next]
    dsimp only
    rw [if_pos (by simp; omega)]
    exact ih blank.2

/-- What is skipped for array suffixes. -/
theorem skipArraySuffixes_split (cs : List Char) :
    ∃ skipped, cs = skipped ++ skipArraySuffixes cs ∧ skipped.all isArrayChar = true := by
  induction hn : cs.length using Nat.strongRecOn generalizing cs with
  | ind n ih =>
    rw [skipArraySuffixes]
    cases found : afterArraySuffix? cs with
    | none => exact ⟨[], rfl, rfl⟩
    | some rest =>
      dsimp only
      split
      · next shorter =>
        obtain ⟨skipped, split, characters⟩ := ih rest.length (by omega) rest rfl
        have text : cs = (cs.takeWhile isBlank ++ ("[]".toList ++ skipped)) ++ skipArraySuffixes rest := by
          have suffixed := after?_eq_some_iff.1 found
          rw [List.append_assoc, List.append_assoc, ← split, ← suffixed, trimStart,
            List.takeWhile_append_dropWhile]
        have bracket : "[]".toList.all isArrayChar = true := by decide
        refine ⟨_, text, ?_⟩
        rw [List.all_append, List.all_append, characters, bracket, Bool.and_true, Bool.and_true,
          List.all_eq_true]
        intro c hc
        rw [isArrayChar, List.all_eq_true.1 List.all_takeWhile c hc]
        rfl
      · exact ⟨[], rfl, rfl⟩

/-- Blanks are skipped to no character that the text does not have. -/
theorem head?_trimStart_ne {c : Char} {x y : List Char} (absent : c ∉ x)
    (blank : y.head?.any isBlank = false) (other : y.head? ≠ some c) :
    (trimStart (x ++ y)).head? ≠ some c := by
  induction x with
  | nil =>
    rw [List.nil_append, trimStart_of_head? blank]
    exact other
  | cons d x ih =>
    rw [List.mem_cons, not_or] at absent
    rw [List.cons_append, trimStart, List.dropWhile_cons]
    split
    · exact ih absent.2
    · intro same
      exact absent.1 (Option.some.inj same).symm

/-- What may follow a directive: a word that something else than a parenthesis follows. -/
theorem follows_of_gap {front gap rest : List Char} (first : front.head?.any isDotted = true)
    (paren : '(' ∉ front) (blanks : gap.all isBlank = true) (apart : gap ≠ [])
    (blank : rest.head?.any isBlank = false) (opens : rest.head? ≠ some '(') :
    Follows (front ++ (gap ++ rest)) := by
  obtain ⟨c, head, dotted⟩ := (Option.any_eq_true _ _).1 first
  obtain ⟨unblank, angle, bracket, -⟩ := of_isDotted dotted
  have whole : (front ++ (gap ++ rest)).head? = some c := by
    rw [List.head?_append, head]
    rfl
  refine ⟨?_, ?_, ?_, ?_⟩
  · rw [whole, Option.any_some, unblank]
  · rw [whole]
    exact fun same => angle (Option.some.inj same)
  · rw [whole]
    exact fun same => bracket (Option.some.inj same)
  · intro w r found
    rw [word?, run?] at found
    split at found
    · obtain ⟨-, rfl⟩ := Prod.mk.inj (Option.some.inj found)
      -- The word ends at the latest where the gap begins.
      have inside : (front ++ gap).dropWhile isWordChar ≠ [] := by
        rw [Ne, List.dropWhile_eq_nil_iff]
        intro words
        have last := List.getLast_mem apart
        have word := words _ (List.mem_append_right front last)
        have blank := List.all_eq_true.1 blanks _ last
        rw [isBlank_of_isWordChar word] at blank
        cases blank
      rw [← List.append_assoc, List.dropWhile_append, if_neg (by simpa using inside)]
      refine afterChar?_of_head? (head?_trimStart_ne ?_ blank opens)
      intro member
      obtain inFront | inGap := List.mem_append.1 ((List.dropWhile_sublist _).subset member)
      · exact paren inFront
      · exact absurd (List.all_eq_true.1 blanks _ inGap) (by decide)
    · cases found

theorem textBefore_append_self (before rest : List Char) :
    textBefore (before ++ rest) rest = before := by
  rw [textBefore, List.length_append, Nat.add_sub_cancel, List.take_left]

section Signature

variable {s : Signature} (wf : s.WellFormed) (behind : List Char)

include wf

theorem skipArraySuffixes_signature :
    skipArraySuffixes (arrayText s.type.arrays ++ s.call.text behind) = s.call.text behind := by
  obtain ⟨d, head, word, -⟩ := Call.head?_name wf.call behind
  refine skipArraySuffixes_arrayText wf.type.arrays ?_
  rw [Call.trimStart_text wf.call]
  refine after?_brackets ?_
  rw [head, Ne, Option.some.injEq]
  exact (of_isDotted (isDotted_of_isWordChar word)).2.2.1

private theorem nameBehind?_signature (start : List Char) :
    nameBehind? start (s.text behind) (arrayText s.type.arrays ++ s.call.text behind) =
      some ⟨start, s.type.text, s.call.name, behind⟩ := by
  rw [nameBehind?_call wf.call behind start _ (skipArraySuffixes_signature wf behind), Signature.text,
    textBefore_append_self]

theorem not_mem_call : '>' ∉ s.call.gap ++ (s.call.name ++ s.call.space) := by
  rw [List.mem_append, List.mem_append]
  rintro (gap | name | space)
  · exact absurd (List.all_eq_true.1 wf.call.gap _ gap) (by decide)
  · exact absurd (List.all_eq_true.1 wf.call.name _ name) (by decide)
  · exact absurd (List.all_eq_true.1 wf.call.space _ space) (by decide)

/-- Behind the arguments of the return type none end. -/
theorem argumentEnds_call :
    argumentEnds (arrayText s.type.arrays ++ s.call.text behind) = [] := by
  have text : arrayText s.type.arrays ++ s.call.text behind =
      (arrayText s.type.arrays ++ (s.call.gap ++ (s.call.name ++ s.call.space))) ++ '(' :: behind := by
    simp [Call.text]
  rw [text, argumentEnds_before (c := '(') (by decide)]
  rw [List.mem_append, not_or]
  exact ⟨not_mem_of_all (arrayText_characters wf.type.arrays) (by decide), not_mem_call wf⟩

/-- The text behind the name of the return type. -/
theorem typeEnds_signature : ∃ ends,
    typeEnds (s.type.argumentText ++ (arrayText s.type.arrays ++ s.call.text behind)) =
      (arrayText s.type.arrays ++ s.call.text behind) :: ends := by
  rw [SpacedType.argumentText]
  cases arguments : s.type.arguments with
  | none =>
    refine ⟨[], ?_⟩
    have angle : (trimStart (arrayText s.type.arrays ++ s.call.text behind)).head? ≠ some '<' := by
      obtain ⟨d, head, word, blank⟩ := Call.head?_name wf.call behind
      have other := (of_isDotted (isDotted_of_isWordChar word)).2.1
      have noAngle : '<' ∉ arrayText s.type.arrays ++ s.call.gap := by
        rw [List.mem_append, not_or]
        exact ⟨not_mem_of_all (arrayText_characters wf.type.arrays) (by decide),
          not_mem_of_all wf.call.gap (by decide)⟩
      rw [Call.text, ← List.append_assoc]
      refine head?_trimStart_ne noAngle ?_ ?_
      · rw [head, Option.any_some, blank]
      · rw [head, Ne, Option.some.injEq]
        exact other
    rw [Option.elim_none, List.nil_append, typeEnds, afterChar?_of_head? angle]
  | some found =>
    obtain ⟨blanks, inside⟩ := found
    obtain ⟨blank, plain⟩ := wf.type.arguments _ arguments
    obtain ⟨ends, tried⟩ := argumentEnds_inside plain (argumentEnds_call wf behind)
    refine ⟨ends, ?_⟩
    have text : blanks ++ '<' :: (inside ++ ['>']) ++ (arrayText s.type.arrays ++ s.call.text behind) =
        blanks ++ '<' :: (inside ++ '>' :: (arrayText s.type.arrays ++ s.call.text behind)) := by
      simp
    have angle : isBlank '<' = false := by decide
    rw [Option.elim_some, text, typeEnds, @trimStart_blanks _ blank ('<' :: _) angle, ← tried]
    rfl

/-- Behind the name of the return type stands a bracket or a blank. -/
theorem head?_behindBase :
    (s.type.argumentText ++ (arrayText s.type.arrays ++ s.call.text behind)).head?.any isDotted =
      false := by
  have blank (c : Char) : isBlank c = true → isDotted c = false := isDotted_of_isBlank
  have call : (s.call.text behind).head?.any isDotted = false :=
    head?_any_blanks wf.call.gap blank fun empty => absurd empty wf.call.apart
  have arrays : (arrayText s.type.arrays ++ s.call.text behind).head?.any isDotted = false := by
    have blanks := wf.type.arrays
    cases each : s.type.arrays with
    | nil => exact call
    | cons first arrays =>
      rw [each, List.forall_mem_cons] at blanks
      rw [arrayText, List.flatMap_cons, List.append_assoc, List.append_assoc]
      exact head?_any_blanks blanks.1 blank fun _ => (by decide : isDotted '[' = false)
  rw [SpacedType.argumentText]
  cases arguments : s.type.arguments with
  | none => exact arrays
  | some found =>
    obtain ⟨blanks, inside⟩ := found
    rw [Option.elim_some, List.append_assoc]
    exact head?_any_blanks (wf.type.arguments _ arguments).1 blank
      fun _ => (by decide : isDotted '<' = false)

omit wf in
theorem signature_text_eq : s.text behind =
    s.type.base ++ (s.type.argumentText ++ (arrayText s.type.arrays ++ s.call.text behind)) := by
  simp [Signature.text, SpacedType.text]

private theorem keyword?_signature : keyword? methodModifiers (s.text behind) = none := by
  cases found : keyword? methodModifiers (s.text behind) with
  | none => rfl
  | some pair =>
    rw [signature_text_eq] at found
    obtain ⟨member, same, -⟩ := of_keyword?_name wf.type.characters wf.type.nonempty
      (head?_behindBase wf behind) found
    refine absurd ?_ wf.modifier
    rw [← same, String.ofList_toList]
    simpa using member

/-- A signature is read from its first character on, whatever stands in front. -/
theorem behindModifiers?_signature (start : List Char) :
    behindModifiers? start (s.text behind) = some ⟨start, s.type.text, s.call.name, behind⟩ := by
  obtain ⟨ends, first⟩ := typeEnds_signature wf behind
  rw [signature_text_eq, behindModifiers?_name wf.type.characters wf.type.nonempty
    (head?_behindBase wf behind), ← signature_text_eq, first, List.findSome?_cons,
    nameBehind?_signature wf behind]

theorem head?_signature : (s.text behind).head?.any isDotted = true := by
  rw [signature_text_eq]
  cases base : s.type.base with
  | nil => exact absurd base wf.type.nonempty
  | cons c cs =>
    have dotted := wf.type.characters
    rw [base, List.all_cons, Bool.and_eq_true] at dotted
    exact dotted.1

theorem not_mem_type : '(' ∉ s.type.text := by
  rw [SpacedType.text, List.mem_append, List.mem_append, not_or, not_or]
  refine ⟨not_mem_of_all wf.type.characters (by decide), ?_,
    not_mem_of_all (arrayText_characters wf.type.arrays) (by decide)⟩
  rw [SpacedType.argumentText]
  cases arguments : s.type.arguments with
  | none => simp
  | some found =>
    obtain ⟨blanks, inside⟩ := found
    obtain ⟨blank, plain⟩ := wf.type.arguments _ arguments
    have first : '(' ∉ blanks := not_mem_of_all blank (by decide)
    have second : '(' ∉ inside := not_mem_of_all plain (by decide)
    simp [first, second]

/-- A signature may follow a directive. -/
theorem follows_signature : Follows (s.text behind) := by
  obtain ⟨c, head, word, blank⟩ := Call.head?_name wf.call behind
  have first : s.type.text.head?.any isDotted = true := by
    have whole := head?_signature wf behind
    rw [signature_text_eq, List.head?_append_of_ne_nil _ wf.type.nonempty] at whole
    rwa [SpacedType.text, List.head?_append_of_ne_nil _ wf.type.nonempty]
  refine follows_of_gap first (not_mem_type wf) wf.call.gap wf.call.apart ?_ ?_
  · rw [head, Option.any_some, blank]
  · rw [head, Ne, Option.some.injEq]
    exact (of_isDotted (isDotted_of_isWordChar word)).2.2.2.1

end Signature

theorem afterTypeParameters?_plain {cs : List Char} (plain : cs.all isParameterChar = true)
    (nested : Bool) (rest : List Char) :
    afterTypeParameters? nested (cs ++ rest) = afterTypeParameters? nested rest := by
  induction cs with
  | nil => rfl
  | cons c cs ih =>
    rw [List.all_cons, Bool.and_eq_true] at plain
    have here := plain.1
    simp only [isParameterChar, endsArguments, Bool.and_eq_true, Bool.not_eq_true',
      Bool.or_eq_false_iff, bne_iff_ne, ne_eq] at here
    obtain ⟨⟨⟨stop, -⟩, opens⟩, closes⟩ := here
    rw [List.cons_append, afterTypeParameters?, if_neg (by simp [stop]), if_neg (by simpa using opens),
      if_neg (by simpa using closes), ih plain.2]

private theorem afterTypeParameters?_inner {inner : List (List Char × List Char)}
    (plain : ∀ list ∈ inner, list.1.all isParameterChar = true ∧ list.2.all isParameterChar = true)
    (rest : List Char) :
    afterTypeParameters? false
      ((inner.flatMap fun (inside, behind) => '<' :: (inside ++ '>' :: behind)) ++ '>' :: rest) =
      some rest := by
  induction inner with
  | nil => rfl
  | cons list inner ih =>
    rw [List.forall_mem_cons] at plain
    obtain ⟨inside, behind⟩ := list
    rw [List.flatMap_cons, List.append_assoc, List.cons_append, List.append_assoc, List.cons_append,
      afterTypeParameters?, if_neg (by decide), if_pos (by decide), if_neg (by decide),
      afterTypeParameters?_plain plain.1.1, afterTypeParameters?, if_neg (by decide),
      if_neg (by decide), if_pos (by decide), if_pos rfl, afterTypeParameters?_plain plain.1.2,
      ih plain.2]

/-- A list of type parameters is skipped with the blanks behind it. -/
theorem skipTypeParameters?_text {t : TypeParameters} (wf : t.WellFormed) {rest : List Char}
    (blank : rest.head?.any isBlank = false) : skipTypeParameters? (t.text ++ rest) = some rest := by
  have text : t.text ++ rest = '<' :: (t.front ++
      ((t.inner.flatMap fun (inside, behind) => '<' :: (inside ++ '>' :: behind)) ++
        '>' :: (t.gap ++ rest))) := by
    simp [TypeParameters.text, TypeParameters.inside]
  rw [text, skipTypeParameters?, afterChar?_eq_some_iff.2 rfl]
  dsimp only
  rw [afterTypeParameters?_plain wf.front, afterTypeParameters?_inner wf.inner, Option.bind_some,
    afterBlanks?_eq_some wf.gap wf.apart blank]

def opensDeclaration (c : Char) : Bool := isDotted c || c == '<'

theorem of_opensDeclaration {cs : List Char} (h : cs.head?.any opensDeclaration = true) :
    cs.head?.any isBlank = false ∧ cs.head? ≠ some '(' := by
  obtain ⟨c, head, opens⟩ := (Option.any_eq_true _ _).1 h
  rw [head, Option.any_some, Ne, Option.some.injEq]
  rw [opensDeclaration, Bool.or_eq_true, beq_iff_eq] at opens
  obtain dotted | rfl := opens
  · exact ⟨(of_isDotted dotted).1, (of_isDotted dotted).2.2.2.1⟩
  · decide

theorem head?_modifierText {ms : List (String × List Char)} (modifiers : AreModifiers ms)
    {cs : List Char} (opens : cs.head?.any opensDeclaration = true) :
    (modifierText ms ++ cs).head?.any opensDeclaration = true := by
  cases ms with
  | nil => exact opens
  | cons m ms =>
    obtain ⟨letters, nonempty⟩ := isDotted_of_mem_modifier m.1 (modifiers m List.mem_cons_self).1
    rw [modifierText, List.flatMap_cons]
    dsimp only
    cases word : m.1.toList with
    | nil => exact absurd word nonempty
    | cons c cs =>
      rw [word, List.all_cons, Bool.and_eq_true] at letters
      change opensDeclaration c = true
      rw [opensDeclaration, letters.1, Bool.true_or]

/-- The longest run of modifiers is tried first. -/
theorem modifierRuns_modifierText {ms : List (String × List Char)} (modifiers : AreModifiers ms)
    {cs : List Char} (opens : cs.head?.any opensDeclaration = true)
    (none' : keyword? methodModifiers cs = none) :
    ∃ runs, modifierRuns (modifierText ms ++ cs) = cs :: runs := by
  induction ms with
  | nil => exact ⟨[], modifierRuns_of_none none'⟩
  | cons m ms ih =>
    obtain ⟨word, gap⟩ := m
    rw [AreModifiers, List.forall_mem_cons] at modifiers
    obtain ⟨⟨member, blanks, apart⟩, others⟩ := modifiers
    obtain ⟨runs, later⟩ := ih others
    have text : modifierText ((word, gap) :: ms) ++ cs =
        word.toList ++ (gap ++ (modifierText ms ++ cs)) := by
      simp [modifierText]
    have found := keyword?_modifier member
      (afterBlanks?_eq_some blanks apart (of_opensDeclaration (head?_modifierText others opens)).1)
    have shorter : (modifierText ms ++ cs).length <
        (word.toList ++ (gap ++ (modifierText ms ++ cs))).length := by
      have positive : 0 < gap.length := List.length_pos_iff.2 apart
      simp only [List.length_append]
      omega
    refine ⟨runs ++ [word.toList ++ (gap ++ (modifierText ms ++ cs))], ?_⟩
    rw [text, modifierRuns, found]
    dsimp only
    rw [if_pos shorter, later]
    rfl

section Declaration

variable {d : Declaration} (wf : d.WellFormed) (behind : List Char)

include wf

private theorem behindModifiers?_generic (start : List Char) :
    behindModifiers? start (d.generic behind) =
      some ⟨start, d.signature.type.text, d.signature.call.name, behind⟩ := by
  rw [Declaration.generic]
  cases parameters : d.typeParameters with
  | none => exact behindModifiers?_signature wf.signature behind start
  | some t =>
    obtain ⟨c, head, dotted⟩ := (Option.any_eq_true _ _).1 (head?_signature wf.signature behind)
    have blank : (d.signature.text behind).head?.any isBlank = false := by
      rw [head, Option.any_some, (of_isDotted dotted).1]
    have angle : (d.signature.text behind).head? ≠ some '<' := by
      rw [head, Ne, Option.some.injEq]
      exact (of_isDotted dotted).2.1
    have whole := behindModifiers?_signature wf.signature behind start
    rw [behindModifiers?, skipTypeParameters?, afterChar?_of_head? angle] at whole
    rw [Option.elim_some, behindModifiers?,
      skipTypeParameters?_text (wf.typeParameters t parameters) blank]
    exact whole

private theorem keyword?_generic : keyword? methodModifiers (d.generic behind) = none := by
  rw [Declaration.generic]
  cases d.typeParameters with
  | none => exact keyword?_signature wf.signature behind
  | some t => exact keyword?_of_head? (by decide : isDotted '<' = false)

theorem head?_generic : (d.generic behind).head?.any opensDeclaration = true := by
  rw [Declaration.generic]
  cases d.typeParameters with
  | none =>
    obtain ⟨c, head, dotted⟩ := (Option.any_eq_true _ _).1 (head?_signature wf.signature behind)
    rw [Option.elim_none, List.nil_append, head, Option.any_some, opensDeclaration, dotted,
      Bool.true_or]
  | some t => exact (by decide : opensDeclaration '<' = true)

/-- Behind any modifiers a declaration is read from its first character on. -/
theorem candidate?_generic {ms : List (String × List Char)} (modifiers : AreModifiers ms) :
    candidate? (modifierText ms ++ d.generic behind) =
      some ⟨modifierText ms ++ d.generic behind, d.signature.type.text, d.signature.call.name,
        behind⟩ := by
  obtain ⟨runs, first⟩ := modifierRuns_modifierText modifiers (head?_generic wf behind)
    (keyword?_generic wf behind)
  rw [candidate?, first, List.findSome?_cons, behindModifiers?_generic wf]

theorem candidate?_declaration : candidate? (d.text behind) =
    some ⟨d.text behind, d.signature.type.text, d.signature.call.name, behind⟩ :=
  candidate?_generic wf behind wf.modifiers

end Declaration

end ApiCollection.Java
