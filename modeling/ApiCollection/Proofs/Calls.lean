import ApiCollection.Proofs.MemberLayout
import ApiCollection.Proofs.TextPieces

/-!
# Calls

A candidate is read off something that may be a type and a call behind it: blanks, a name and an
opening parenthesis. A text in which no call follows the end of a word is calm.
-/

namespace ApiCollection.Java

open Text

/-- Blanks, a name and the blanks before its parenthesis. -/
structure Call where
  gap : List Char
  name : List Char
  space : List Char

structure Call.WellFormed (c : Call) : Prop where
  gap : c.gap.all isBlank = true
  apart : c.gap ≠ []
  name : c.name.all isWordChar = true
  named : c.name ≠ []
  space : c.space.all isBlank = true

instance (c : Call) : Decidable c.WellFormed :=
  decidable_of_iff (_ ∧ _ ∧ _ ∧ _ ∧ _) ⟨fun ⟨a, b, c, d, e⟩ => ⟨a, b, c, d, e⟩,
    fun ⟨a, b, c, d, e⟩ => ⟨a, b, c, d, e⟩⟩

def Call.text (c : Call) (behind : List Char) : List Char :=
  c.gap ++ (c.name ++ (c.space ++ '(' :: behind))

section Call

variable {c : Call} (wf : c.WellFormed) (behind : List Char)

include wf

/-- The name begins with no blank and no bracket. -/
theorem Call.head?_name : ∃ d, (c.name ++ (c.space ++ '(' :: behind)).head? = some d ∧
    isWordChar d = true ∧ isBlank d = false := by
  cases name : c.name with
  | nil => exact absurd name wf.named
  | cons d ds =>
    have word := wf.name
    rw [name, List.all_cons, Bool.and_eq_true] at word
    exact ⟨d, rfl, word.1, isBlank_of_isWordChar word.1⟩

theorem Call.trimStart_text :
    trimStart (c.text behind) = c.name ++ (c.space ++ '(' :: behind) := by
  obtain ⟨d, head, -, blank⟩ := Call.head?_name wf behind
  exact trimStart_blanks wf.gap (by rw [head, Option.any_some, blank])

private theorem Call.afterBlanks?_text :
    afterBlanks? (c.text behind) = some (c.name ++ (c.space ++ '(' :: behind)) := by
  obtain ⟨d, head, -, blank⟩ := Call.head?_name wf behind
  exact afterBlanks?_eq_some wf.gap wf.apart (by rw [head, Option.any_some, blank])

/-- A call behind a type is a candidate. -/
theorem nameBehind?_call (start typeStart : List Char) {typeEnd : List Char}
    (suffixed : skipArraySuffixes typeEnd = c.text behind) :
    nameBehind? start typeStart typeEnd =
      some ⟨start, textBefore typeStart (c.text behind), c.name, behind⟩ := by
  have paren : isBlank '(' = false ∧ isWordChar '(' = false := by decide
  have ends : (c.space ++ '(' :: behind).head?.any isWordChar = false :=
    head?_any_blanks wf.space (fun d blank => by
      by_contra word
      rw [Bool.not_eq_false] at word
      rw [isBlank_of_isWordChar word] at blank
      cases blank) fun _ => paren.2
  have name : word? (c.name ++ (c.space ++ '(' :: behind)) =
      some (c.name, c.space ++ '(' :: behind) := run?_append wf.name wf.named ends
  have opens : afterChar? '(' (trimStart (c.space ++ '(' :: behind)) = some behind := by
    rw [@trimStart_blanks _ wf.space ('(' :: behind) paren.1, afterChar?_eq_some_iff]
  simp only [nameBehind?, suffixed, Call.afterBlanks?_text wf, name, opens, Option.bind_eq_bind,
    Option.bind_some, Option.pure_def]

end Call

/-- A candidate has a call behind its type. -/
theorem nameBehind?_eq_some {start typeStart typeEnd : List Char} {k : Candidate}
    (h : nameBehind? start typeStart typeEnd = some k) :
    ∃ c : Call, c.WellFormed ∧ skipArraySuffixes typeEnd = c.text k.behind := by
  simp only [nameBehind?, Option.bind_eq_bind, Option.bind_eq_some_iff, Option.pure_def,
    Option.some.injEq, Prod.exists] at h
  obtain ⟨called, blanks, name, rest, word, behind, paren, rfl⟩ := h
  obtain ⟨gap, split, gapBlank, apart⟩ := afterBlanks?_split blanks
  obtain ⟨rfl, characters, named⟩ := run?_eq_some word
  have opens := afterChar?_eq_some_iff.1 paren
  have space : rest = rest.takeWhile isBlank ++ '(' :: behind := by
    rw [← opens, trimStart, List.takeWhile_append_dropWhile]
  refine ⟨⟨gap, name, rest.takeWhile isBlank⟩,
    ⟨gapBlank, apart, characters, named, List.all_takeWhile⟩, ?_⟩
  rw [split, Call.text, ← space]

private theorem paren_inj {x x' behind behind' : List Char} (absent : '(' ∉ x) (absent' : '(' ∉ x')
    (same : x ++ '(' :: behind = x' ++ '(' :: behind') : x = x' := by
  have cut := cutAtChar?_append absent behind
  rw [same, cutAtChar?_append absent', Option.some.injEq, Prod.mk.injEq] at cut
  exact cut.1.symm

/-- The first parenthesis of a text has one name in front of it. -/
theorem Call.text_inj {c c' : Call} (wf : c.WellFormed) (wf' : c'.WellFormed)
    {x x' behind behind' : List Char} (absent : '(' ∉ x) (absent' : '(' ∉ x')
    (same : x ++ c.text behind = x' ++ c'.text behind') : x ++ c.gap = x' ++ c'.gap := by
  have parts (c : Call) (x behind : List Char) : x ++ c.text behind =
      ((x ++ c.gap) ++ (c.name ++ c.space)) ++ '(' :: behind := by
    simp [Call.text]
  have plain {c : Call} (wf : c.WellFormed) {x : List Char} (absent : '(' ∉ x) :
      '(' ∉ (x ++ c.gap) ++ (c.name ++ c.space) := by
    rw [List.mem_append, List.mem_append, List.mem_append, not_or, not_or, not_or]
    exact ⟨⟨absent, not_mem_of_all wf.gap (by decide)⟩, not_mem_of_all wf.name (by decide),
      not_mem_of_all wf.space (by decide)⟩
  -- From the right the text is blanks, a word, and something that a blank ends.
  have reversed {c : Call} (wf : c.WellFormed) (x : List Char) :
      (trimStart ((x ++ c.gap) ++ (c.name ++ c.space)).reverse).dropWhile isWordChar =
        (x ++ c.gap).reverse := by
    have space : c.space.reverse.all isBlank = true := by rw [List.all_reverse, wf.space]
    have name : c.name.reverse.all isWordChar = true := by rw [List.all_reverse, wf.name]
    have nameEnds : (c.name.reverse ++ (x ++ c.gap).reverse).head?.any isBlank = false := by
      rw [List.head?_append_of_ne_nil _ (by simpa using wf.named), List.head?_reverse,
        List.getLast?_eq_some_getLast wf.named, Option.any_some]
      exact isBlank_of_isWordChar (List.all_eq_true.1 wf.name _ (List.getLast_mem wf.named))
    have gapEnds : (x ++ c.gap).reverse.head?.any isWordChar = false := by
      rw [List.head?_reverse, List.getLast?_append_of_ne_nil _ wf.apart,
        List.getLast?_eq_some_getLast wf.apart, Option.any_some]
      exact (of_isBlank (List.all_eq_true.1 wf.gap _ (List.getLast_mem wf.apart))).1
    rw [List.reverse_append, List.reverse_append, List.append_assoc, trimStart_blanks space nameEnds,
      List.dropWhile_append_of_pos (List.all_eq_true.1 name), dropWhile_of_head? gapEnds]
  rw [parts, parts] at same
  have texts := paren_inj (plain wf absent) (plain wf' absent') same
  have fronts := reversed wf x
  rw [texts, reversed wf'] at fronts
  exact (List.reverse_injective fronts).symm

def closesType (c : Char) : Bool := isDotted c || c == '>' || c == ']'

/-- Whether a text is the rest of another one behind the end of a type. -/
def IsBehindType (cs rest : List Char) : Prop :=
  ∃ front c, cs = front ++ c :: rest ∧ closesType c = true

theorem IsBehindType.of_suffix {cs cs' rest : List Char} (h : IsBehindType cs' rest)
    (suffix : cs' <:+ cs) : IsBehindType cs rest := by
  obtain ⟨front, c, rfl, closes⟩ := h
  obtain ⟨before, rfl⟩ := suffix
  exact ⟨before ++ front, c, (List.append_assoc _ _ _).symm, closes⟩

private theorem suffix_of_mem_modifierRuns {cs run : List Char} (h : run ∈ modifierRuns cs) :
    run <:+ cs := by
  induction hn : cs.length using Nat.strongRecOn generalizing cs with
  | ind n ih =>
    rw [modifierRuns] at h
    cases found : keyword? methodModifiers cs with
    | none =>
      rw [found] at h
      rw [List.mem_singleton.1 h]
    | some pair =>
      obtain ⟨word, rest⟩ := pair
      have suffix : rest <:+ cs := by
        obtain ⟨word', -, read⟩ := List.exists_of_findSome?_eq_some found
        obtain ⟨left, blanks, same⟩ := Option.map_eq_some_iff.1 read
        obtain ⟨behind, after, blanks⟩ := Option.bind_eq_some_iff.1 blanks
        obtain ⟨gap, rfl, -⟩ := afterBlanks?_split blanks
        rw [after?_eq_some_iff.1 after, ← (Prod.mk.inj same).2]
        exact (List.suffix_append _ _).trans (List.suffix_append _ _)
      simp only [found] at h
      split at h
      · obtain later | here := List.mem_append.1 h
        · exact (ih rest.length (by omega) later rfl).trans suffix
        · rw [List.mem_singleton.1 here]
      · rw [List.mem_singleton.1 h]

private theorem suffix_afterTypeParameters? {nested : Bool} {cs rest : List Char}
    (h : afterTypeParameters? nested cs = some rest) : rest <:+ cs := by
  induction cs generalizing nested with
  | nil => cases h
  | cons c cs ih =>
    have behind := List.suffix_cons c cs
    rw [afterTypeParameters?] at h
    split at h
    · cases h
    · split at h
      · split at h
        · cases h
        · exact (ih h).trans behind
      · split at h
        · split at h
          · exact (ih h).trans behind
          · rw [← Option.some.inj h]
            exact behind
        · exact (ih h).trans behind

private theorem suffix_skipTypeParameters? {cs rest : List Char}
    (h : skipTypeParameters? cs = some rest) :
    rest <:+ cs := by
  rw [skipTypeParameters?] at h
  cases opened : afterChar? '<' cs with
  | none =>
    rw [opened] at h
    rw [Option.some.inj h]
  | some inside =>
    rw [opened] at h
    obtain ⟨left, closed, blanks⟩ := Option.bind_eq_some_iff.1 h
    obtain ⟨gap, rfl, -⟩ := afterBlanks?_split blanks
    rw [afterChar?_eq_some_iff.1 opened]
    exact (List.suffix_append _ _).trans
      ((suffix_afterTypeParameters? closed).trans (List.suffix_cons _ _))

private theorem isBehindType_argumentEnds {cs rest : List Char} (h : rest ∈ argumentEnds cs) :
    IsBehindType cs rest := by
  induction cs with
  | nil => cases h
  | cons c cs ih =>
    rw [argumentEnds] at h
    split at h
    · cases h
    · split at h
      · next closes =>
        obtain later | here := List.mem_append.1 h
        · exact (ih later).of_suffix (List.suffix_cons c cs)
        · rw [List.mem_singleton.1 here]
          exact ⟨[], c, rfl, by simp [closesType, closes]⟩
      · exact (ih h).of_suffix (List.suffix_cons c cs)

/-- The array suffixes behind a type end in a bracket. -/
theorem isBehindType_skipArraySuffixes {cs rest : List Char} (h : IsBehindType cs rest) :
    IsBehindType cs (skipArraySuffixes rest) := by
  induction hn : rest.length using Nat.strongRecOn generalizing rest with
  | ind n ih =>
    rw [skipArraySuffixes]
    cases found : afterArraySuffix? rest with
    | none => exact h
    | some left =>
      dsimp only
      split
      · next shorter =>
        refine ih left.length (by omega) ?_ rfl
        have suffixed := after?_eq_some_iff.1 found
        obtain ⟨front, c, rfl, -⟩ := h
        have bracket : IsBehindType (trimStart rest) left := ⟨['['], ']', suffixed, by decide⟩
        exact bracket.of_suffix ((suffix_trimStart rest).trans
          ((List.suffix_cons c rest).trans (List.suffix_append front _)))
      · exact h

/-- In a candidate a call stands behind the end of a type. -/
theorem candidate?_eq_some {cs : List Char} {k : Candidate} (h : candidate? cs = some k) :
    ∃ c : Call, c.WellFormed ∧ IsBehindType cs (c.text k.behind) := by
  obtain ⟨run, member, read⟩ := List.exists_of_findSome?_eq_some h
  simp only [behindModifiers?, Option.bind_eq_bind, Option.bind_eq_some_iff, Prod.exists] at read
  obtain ⟨typeStart, skipped, base, rest, word, ends⟩ := read
  obtain ⟨typeEnd, tried, found⟩ := List.exists_of_findSome?_eq_some ends
  obtain ⟨call, wf, text⟩ := nameBehind?_eq_some found
  obtain ⟨rfl, characters, nonempty⟩ := run?_eq_some word
  have suffix := (suffix_skipTypeParameters? skipped).trans (suffix_of_mem_modifierRuns member)
  have behindBase : IsBehindType (base ++ rest) rest := by
    refine ⟨base.dropLast, base.getLast nonempty, ?_, ?_⟩
    · rw [← List.singleton_append, ← List.append_assoc, List.dropLast_append_getLast]
    · rw [closesType, isDotted, List.all_eq_true.1 characters _ (List.getLast_mem nonempty)]
      rfl
  have behindType : IsBehindType (base ++ rest) typeEnd := by
    rw [typeEnds] at tried
    cases opened : afterChar? '<' (trimStart rest) with
    | none =>
      rw [opened] at tried
      rw [List.mem_singleton.1 tried]
      exact behindBase
    | some inside =>
      rw [opened] at tried
      refine (isBehindType_argumentEnds tried).of_suffix ?_
      have opens : inside <:+ trimStart rest := by
        rw [afterChar?_eq_some_iff.1 opened]
        exact List.suffix_cons _ _
      exact opens.trans ((suffix_trimStart rest).trans (List.suffix_append _ _))
  refine ⟨call, wf, ?_⟩
  rw [← text]
  exact (isBehindType_skipArraySuffixes behindType).of_suffix suffix

/-- Whether no call stands behind the end of a word, an angle bracket or an array suffix. -/
def Uncalled (cs : List Char) : Prop :=
  ∀ c : Call, c.WellFormed → ∀ behind, ¬IsBehindType cs (c.text behind)

private theorem candidates_of_uncalled {cs : List Char} (h : Uncalled cs) (prev : Option Char) :
    candidates prev cs = [] := by
  have none' (back : List Char) (suffix : back <:+ cs) : candidate? (back ++ []) = none := by
    rw [List.append_nil]
    cases found : candidate? back with
    | none => rfl
    | some k =>
      obtain ⟨c, wf, call⟩ := candidate?_eq_some found
      exact absurd (call.of_suffix suffix) (h c wf k.behind)
  have passed := @candidates_append_of_none cs [] prev fun back suffix _ => none' back suffix
  rw [List.append_nil, candidates_nil] at passed
  exact passed

/-- A text in which no word stands in front of a call is calm. -/
theorem calm_of_uncalled {cs : List Char} (h : Uncalled cs) (prev : Option Char) :
    Calm prev cs := by
  rw [Calm, candidates_of_uncalled h]
  exact nofun

/-- A text without parentheses is calm. -/
theorem calm_of_not_mem {cs : List Char} (h : '(' ∉ cs) (prev : Option Char) : Calm prev cs := by
  refine calm_of_uncalled ?_ prev
  rintro c - behind ⟨front, d, rfl, -⟩
  exact h (by simp [Call.text])

end ApiCollection.Java
