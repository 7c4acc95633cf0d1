import ApiCollection.Java.MethodHead
import Mathlib.Data.List.Basic

/-!
# Reading up to a stop

The readers that a method head is made of read no semicolon, no brace and no closing parenthesis.
At such a stop they behave as at the end of the text, so what they read in front of it does not
depend on what follows.
-/

namespace ApiCollection.Java

open Text

/-- The characters that no part of a method head before its parameters goes beyond. -/
def isStop (c : Char) : Bool := c == ';' || c == '\x7b' || c == '\x7d' || c == ')'

theorem isStop_cases {c : Char} (h : isStop c = true) :
    c = ';' ∨ c = '\x7b' ∨ c = '\x7d' ∨ c = ')' := by
  simpa [isStop, or_assoc] using h

structure StopFacts (c : Char) : Prop where
  blank : isBlank c = false
  word : isWordChar c = false
  dotted : (isWordChar c || c == '.') = false
  typeParameters : endsTypeParameters c = true
  arguments : endsArguments c = true
  angle : c ≠ '<'
  paren : c ≠ '('
  keywords : ∀ word ∈ methodModifiers, c ∉ word.toList
  suffix : c ∉ "[]".toList

theorem stopFacts {c : Char} (h : isStop c = true) : StopFacts c := by
  obtain rfl | rfl | rfl | rfl := isStop_cases h <;> constructor <;> decide +kernel

theorem findSome?_congr {α β : Type} {f g : α → Option β} {l : List α}
    (same : ∀ a ∈ l, f a = g a) : l.findSome? f = l.findSome? g := by
  induction l with
  | nil => rfl
  | cons a l ih =>
    rw [List.forall_mem_cons] at same
    rw [List.findSome?_cons, List.findSome?_cons, same.1, ih same.2]

section Stop

variable {b : Char} {t rest : List Char}

theorem takeWhile_stop {p : Char → Bool} (stop : p b = false) :
    (t ++ b :: rest).takeWhile p = t.takeWhile p := by
  induction t with
  | nil => simp [stop]
  | cons c t ih =>
    rw [List.cons_append, List.takeWhile_cons, List.takeWhile_cons, ih]

theorem dropWhile_stop {p : Char → Bool} (stop : p b = false) :
    (t ++ b :: rest).dropWhile p = t.dropWhile p ++ b :: rest := by
  induction t with
  | nil => simp [stop]
  | cons c t ih =>
    rw [List.cons_append, List.dropWhile_cons, List.dropWhile_cons, ih]
    split <;> rfl

theorem head?_any_stop {p : Char → Bool} (stop : p b = false) :
    (t ++ b :: rest).head?.any p = t.head?.any p := by
  cases t with
  | nil => simp [stop]
  | cons c t => rfl

theorem run?_stop {p : Char → Bool} (stop : p b = false) :
    run? p (t ++ b :: rest) = (run? p t).map fun (a, r) => (a, r ++ b :: rest) := by
  rw [run?, run?, head?_any_stop stop, takeWhile_stop stop, dropWhile_stop stop]
  split <;> rfl

theorem afterBlanks?_stop (stop : isBlank b = false) :
    afterBlanks? (t ++ b :: rest) = (afterBlanks? t).map (· ++ b :: rest) := by
  rw [afterBlanks?, afterBlanks?, head?_any_stop stop, trimStart, dropWhile_stop stop]
  split <;> rfl

theorem after?_stop {word : List Char} (absent : b ∉ word) :
    after? word (t ++ b :: rest) = (after? word t).map (· ++ b :: rest) := by
  induction word generalizing t with
  | nil => rfl
  | cons w word ih =>
    rw [List.mem_cons, not_or] at absent
    cases t with
    | nil => simp [after?, Ne.symm absent.1]
    | cons c t =>
      rw [List.cons_append, after?, after?, ih absent.2]
      split <;> rfl

theorem afterChar?_stop {c : Char} (ne : b ≠ c) :
    afterChar? c (t ++ b :: rest) = (afterChar? c t).map (· ++ b :: rest) := by
  cases t with
  | nil => simp [afterChar?, ne]
  | cons d t =>
    rw [List.cons_append, afterChar?, afterChar?]
    split <;> rfl

theorem word?_stop (stop : isWordChar b = false) :
    word? (t ++ b :: rest) = (word? t).map fun (a, r) => (a, r ++ b :: rest) := run?_stop stop

theorem dottedWord?_stop (stop : (isWordChar b || b == '.') = false) :
    dottedWord? (t ++ b :: rest) = (dottedWord? t).map fun (a, r) => (a, r ++ b :: rest) :=
  run?_stop (p := fun c => isWordChar c || c == '.') stop

theorem argumentEnds_stop (ends : endsArguments b = true) : argumentEnds (t ++ b :: rest) =
    (argumentEnds t).map (· ++ b :: rest) := by
  induction t with
  | nil => simp [argumentEnds, ends]
  | cons c t ih =>
    rw [List.cons_append, argumentEnds, argumentEnds, ih]
    split
    · rfl
    · split
      · rw [List.map_append]
        rfl
      · rfl

variable (stop : isStop b = true)

include stop

theorem trimStart_stop : trimStart (t ++ b :: rest) = trimStart t ++ b :: rest :=
  dropWhile_stop (stopFacts stop).blank

private theorem keyword?_stop : keyword? methodModifiers (t ++ b :: rest) =
    (keyword? methodModifiers t).map fun (w, r) => (w, r ++ b :: rest) := by
  have facts := stopFacts stop
  rw [keyword?, keyword?, List.map_findSome?]
  refine findSome?_congr ?_
  intro word member
  rw [after?_stop (facts.keywords word member), Function.comp_apply, Option.bind_map,
    Option.map_bind]
  cases after? word.toList t with
  | none => rfl
  | some r => simp [afterBlanks?_stop facts.blank, Function.comp_def]

private theorem modifierRuns_stop : modifierRuns (t ++ b :: rest) =
    (modifierRuns t).map (· ++ b :: rest) := by
  induction hn : t.length using Nat.strongRecOn generalizing t with
  | ind n ih =>
    rw [modifierRuns, modifierRuns, keyword?_stop stop]
    cases keyword? methodModifiers t with
    | none => rfl
    | some found =>
      obtain ⟨word, r⟩ := found
      simp only [Option.map_some, List.length_append]
      by_cases shorter : r.length < t.length
      · rw [if_pos (by omega), if_pos shorter, ih r.length (by omega) rfl, List.map_append]
        rfl
      · rw [if_neg (by omega), if_neg shorter]
        rfl

private theorem afterTypeParameters?_stop (nested : Bool) :
    afterTypeParameters? nested (t ++ b :: rest) =
    (afterTypeParameters? nested t).map (· ++ b :: rest) := by
  induction t generalizing nested with
  | nil => simp [afterTypeParameters?, (stopFacts stop).typeParameters]
  | cons c t ih =>
    rw [List.cons_append, afterTypeParameters?, afterTypeParameters?, ih, ih, ih]
    split
    · rfl
    · split
      · split <;> rfl
      · split
        · split <;> rfl
        · rfl

private theorem skipTypeParameters?_stop : skipTypeParameters? (t ++ b :: rest) =
    (skipTypeParameters? t).map (· ++ b :: rest) := by
  have facts := stopFacts stop
  rw [skipTypeParameters?, skipTypeParameters?, afterChar?_stop facts.angle]
  cases afterChar? '<' t with
  | none => rfl
  | some inside =>
    simp only [Option.map_some]
    rw [afterTypeParameters?_stop stop]
    cases afterTypeParameters? false inside with
    | none => rfl
    | some r => exact afterBlanks?_stop facts.blank

private theorem typeEnds_stop : typeEnds (t ++ b :: rest) = (typeEnds t).map (· ++ b :: rest) := by
  rw [typeEnds, typeEnds, trimStart_stop stop, afterChar?_stop (stopFacts stop).angle]
  cases afterChar? '<' (trimStart t) with
  | none => rfl
  | some inside => exact argumentEnds_stop (stopFacts stop).arguments

private theorem afterArraySuffix?_stop : afterArraySuffix? (t ++ b :: rest) =
    (afterArraySuffix? t).map (· ++ b :: rest) := by
  rw [afterArraySuffix?, afterArraySuffix?, trimStart_stop stop,
    after?_stop (stopFacts stop).suffix]

private theorem skipArraySuffixes_stop :
    skipArraySuffixes (t ++ b :: rest) = skipArraySuffixes t ++ b :: rest := by
  induction hn : t.length using Nat.strongRecOn generalizing t with
  | ind n ih =>
    rw [skipArraySuffixes, skipArraySuffixes, afterArraySuffix?_stop stop]
    cases afterArraySuffix? t with
    | none => rfl
    | some r =>
      simp only [Option.map_some, List.length_append]
      by_cases shorter : r.length < t.length
      · rw [if_pos (by omega), if_pos shorter, ih r.length (by omega) rfl]
      · rw [if_neg (by omega), if_neg shorter]

end Stop

def Candidate.extend (tail : List Char) (c : Candidate) : Candidate :=
  { c with start := c.start ++ tail, behind := c.behind ++ tail }

theorem Candidate.isStatement_extend (tail : List Char) (c : Candidate) :
    (c.extend tail).isStatement = c.isStatement := rfl

theorem textBefore_append (cs ending tail : List Char) :
    textBefore (cs ++ tail) (ending ++ tail) = textBefore cs ending := by
  rw [textBefore, textBefore, List.length_append, List.length_append, Nat.add_sub_add_right]
  exact List.take_append_of_le_length (Nat.sub_le _ _)

section Stop

variable {b : Char} (stop : isStop b = true) (rest : List Char)

include stop

private theorem nameBehind?_stop (start typeStart typeEnd : List Char) :
    nameBehind? (start ++ b :: rest) (typeStart ++ b :: rest) (typeEnd ++ b :: rest) =
      (nameBehind? start typeStart typeEnd).map (Candidate.extend (b :: rest)) := by
  have facts := stopFacts stop
  simp only [nameBehind?, skipArraySuffixes_stop stop, afterBlanks?_stop facts.blank,
    textBefore_append]
  cases afterBlanks? (skipArraySuffixes typeEnd) with
  | none => rfl
  | some r =>
    simp only [Option.map_some, Option.bind_eq_bind, Option.bind_some, word?_stop facts.word]
    cases word? r with
    | none => rfl
    | some found =>
      obtain ⟨name, r⟩ := found
      simp only [Option.map_some, Option.bind_some, trimStart_stop stop,
        afterChar?_stop facts.paren]
      cases afterChar? '(' (trimStart r) with
      | none => rfl
      | some behind => rfl

private theorem behindModifiers?_stop (start cs : List Char) :
    behindModifiers? (start ++ b :: rest) (cs ++ b :: rest) =
      (behindModifiers? start cs).map (Candidate.extend (b :: rest)) := by
  have facts := stopFacts stop
  simp only [behindModifiers?, skipTypeParameters?_stop stop]
  cases skipTypeParameters? cs with
  | none => rfl
  | some typeStart =>
    simp only [Option.map_some, Option.bind_eq_bind, Option.bind_some,
      dottedWord?_stop facts.dotted]
    cases dottedWord? typeStart with
    | none => rfl
    | some found =>
      obtain ⟨word, r⟩ := found
      simp only [Option.map_some, Option.bind_some, typeEnds_stop stop, List.findSome?_map,
        List.map_findSome?]
      refine findSome?_congr ?_
      intro typeEnd _
      exact nameBehind?_stop stop rest start typeStart typeEnd

/-- What begins in front of a stop is read as if the text ended there. -/
theorem candidate?_stop (t : List Char) : candidate? (t ++ b :: rest) =
    (candidate? t).map (Candidate.extend (b :: rest)) := by
  rw [candidate?, candidate?, modifierRuns_stop stop, List.findSome?_map, List.map_findSome?]
  refine findSome?_congr ?_
  intro cs _
  exact behindModifiers?_stop stop rest t cs

end Stop
end ApiCollection.Java
