import ApiCollection.Proofs.ParenStates
import ApiCollection.Proofs.TextPieces

/-!
# Lines joined to one

A text over several lines is written on one line by trimming the lines and joining them with single
blanks. Neither the balance of its parentheses nor the place of a closing one changes.
-/

namespace ApiCollection.Text

/-- The lines of a text without the blanks at their ends. -/
def trimmedLines (cs : List Char) : List (List Char) := (splitAtChar '\n' cs).map trim

/-- A text on one line: its trimmed lines joined by single blanks. -/
def oneLine (cs : List Char) : List Char := joinWith [' '] (trimmedLines cs)

/-- What holds of a line, and of a line before a text for which it holds, holds of every text. -/
theorem lines_induction {motive : List Char → Prop} (line : ∀ cs, '\n' ∉ cs → motive cs)
    (more : ∀ l cs, '\n' ∉ l → motive cs → motive (l ++ '\n' :: cs)) (cs : List Char) :
    motive cs := by
  by_cases last : '\n' ∉ cs
  · exact line cs last
  · obtain ⟨l, rest, split, first⟩ := List.eq_append_cons_of_mem (not_not.1 last)
    have shorter : rest.length < cs.length := by
      rw [split, List.length_append, List.length_cons]
      omega
    rw [split]
    exact more l rest first (lines_induction line more rest)
termination_by cs.length

private theorem splitAtChar_line {cs : List Char} (h : '\n' ∉ cs) : splitAtChar '\n' cs = [cs] := by
  refine splitWhere_of_none fun c hc => beq_eq_false_iff_ne.2 ?_
  rintro rfl
  exact h hc

private theorem splitAtChar_lines (xs ys : List Char) :
    splitAtChar '\n' (xs ++ '\n' :: ys) = splitAtChar '\n' xs ++ splitAtChar '\n' ys :=
  splitWhere_append rfl xs ys

theorem joinWith_append (sep : List Char) {xs ys : List (List Char)} (h : xs ≠ []) (h' : ys ≠ []) :
    joinWith sep (xs ++ ys) = joinWith sep xs ++ sep ++ joinWith sep ys := by
  induction xs with
  | nil => exact absurd rfl h
  | cons x xs ih =>
    cases xs with
    | nil =>
      obtain ⟨y, ys, rfl⟩ := List.exists_cons_of_ne_nil h'
      rw [List.singleton_append, joinWith_cons_cons, joinWith_singleton]
    | cons x' xs =>
      rw [List.cons_append, List.cons_append, joinWith_cons_cons, ← List.cons_append,
        ih (List.cons_ne_nil _ _), joinWith_cons_cons]
      simp only [List.append_assoc]

private theorem trimmedLines_ne_nil (cs : List Char) : trimmedLines cs ≠ [] := by
  rw [trimmedLines, ne_eq, List.map_eq_nil_iff]
  exact splitWhere_ne_nil _ cs

theorem trimmedLines_line {cs : List Char} (h : '\n' ∉ cs) : trimmedLines cs = [trim cs] := by
  rw [trimmedLines, splitAtChar_line h, List.map_singleton]

theorem trimmedLines_lines (xs ys : List Char) :
    trimmedLines (xs ++ '\n' :: ys) = trimmedLines xs ++ trimmedLines ys := by
  rw [trimmedLines, splitAtChar_lines, List.map_append]
  rfl

theorem trimmedLines_joinWith {texts : List (List Char)} (h : texts ≠ []) :
    trimmedLines (joinWith ['\n'] texts) = texts.flatMap trimmedLines := by
  induction texts with
  | nil => exact absurd rfl h
  | cons text texts ih =>
    by_cases last : texts = []
    · rw [last, joinWith_singleton, List.flatMap_singleton]
    · obtain ⟨next, texts, rfl⟩ := List.exists_cons_of_ne_nil last
      rw [joinWith_cons_cons, List.append_assoc, List.singleton_append, trimmedLines_lines, ih last]
      rfl

theorem oneLine_line {cs : List Char} (h : '\n' ∉ cs) : oneLine cs = trim cs := by
  rw [oneLine, trimmedLines_line h, joinWith_singleton]

theorem oneLine_lines (xs ys : List Char) :
    oneLine (xs ++ '\n' :: ys) = oneLine xs ++ ' ' :: oneLine ys := by
  rw [oneLine, trimmedLines_lines, joinWith_append [' '] (trimmedLines_ne_nil xs)
    (trimmedLines_ne_nil ys), List.append_assoc]
  rfl

/-- Blanks at the ends of a text are no part of its trimmed lines. -/
theorem trimmedLines_between {front behind : List Char} (front' : front.all isTabOrSpace = true)
    (behind' : behind.all isTabOrSpace = true) (cs : List Char) :
    trimmedLines (front ++ (cs ++ behind)) = trimmedLines cs := by
  have line {blanks : List Char} (h : blanks.all isTabOrSpace = true) : '\n' ∉ blanks :=
    fun member => absurd (List.all_eq_true.1 h _ member) (by decide)
  have start {text : List Char} : trimmedLines (front ++ text) = trimmedLines text := by
    induction text using lines_induction with
    | line text h =>
      have whole : '\n' ∉ front ++ text := by
        rw [List.mem_append, not_or]
        exact ⟨line front', h⟩
      rw [trimmedLines_line h, trimmedLines_line whole, trim_blanks_append (all_isBlank front')]
    | more l text h =>
      have whole : '\n' ∉ front ++ l := by
        rw [List.mem_append, not_or]
        exact ⟨line front', h⟩
      rw [← List.append_assoc, trimmedLines_lines, trimmedLines_lines, trimmedLines_line h,
        trimmedLines_line whole, trim_blanks_append (all_isBlank front')]
  rw [start]
  induction cs using lines_induction with
  | line cs h =>
    have whole : '\n' ∉ cs ++ behind := by
      rw [List.mem_append, not_or]
      exact ⟨h, line behind'⟩
    rw [trimmedLines_line h, trimmedLines_line whole, trim_append_blanks (all_isBlank behind')]
  | more l cs h ih => rw [List.append_assoc, List.cons_append, trimmedLines_lines, trimmedLines_lines, ih]

section Ends

variable {text : List Char} {c d : Char} (line : '\n' ∉ text) (first : text.head? = some c)
  (firstBlank : isBlank c = false) (last : text.getLast? = some d) (lastBlank : isBlank d = false)

include line first firstBlank last lastBlank

/-- What stands before a text on its first line stays there. -/
theorem oneLine_front (cs : List Char) : ∃ blanks : List Char, blanks.all isBlank = true ∧
    oneLine (text ++ cs) = text ++ (blanks ++ oneLine cs) := by
  have join {cs : List Char} (h : '\n' ∉ cs) : '\n' ∉ text ++ cs := by
    rw [List.mem_append, not_or]
    exact ⟨line, h⟩
  have ends (cs : List Char) : ∃ blanks : List Char, blanks.all isBlank = true ∧
      trim (text ++ cs) = text ++ (blanks ++ trim cs) := by
    have start : (text ++ cs).head?.any isBlank = false := by
      rw [List.head?_append, first]
      exact firstBlank
    obtain ⟨blanks, blank, same⟩ := trimEnd_eq_append_trim cs
    exact ⟨blanks, blank, by rw [trim, trimStart_of_head? start, trimEnd_append last lastBlank, same]⟩
  induction cs using lines_induction with
  | line cs h =>
    rw [oneLine_line h, oneLine_line (join h)]
    exact ends cs
  | more l cs h =>
    obtain ⟨blanks, blank, same⟩ := ends l
    refine ⟨blanks, blank, ?_⟩
    rw [← List.append_assoc, oneLine_lines, oneLine_lines, oneLine_line h, oneLine_line (join h), same]
    simp only [List.append_assoc]

/-- What stands behind a text on its last line stays there. -/
theorem oneLine_behind (cs : List Char) : ∃ blanks : List Char, blanks.all isBlank = true ∧
    oneLine (cs ++ text) = oneLine cs ++ (blanks ++ text) := by
  induction cs using lines_induction with
  | line cs h =>
    have whole : '\n' ∉ cs ++ text := by
      rw [List.mem_append, not_or]
      exact ⟨h, line⟩
    have alone : trimEnd text = text := by
      have same := trimEnd_append last lastBlank []
      rwa [List.append_nil, show trimEnd [] = [] from rfl, List.append_nil] at same
    have some' : trimEnd text ≠ [] := by
      intro empty
      rw [← alone, empty] at first
      cases first
    obtain ⟨blanks, blank, same⟩ := exists_trimEnd (trimStart cs)
    refine ⟨blanks, blank, ?_⟩
    rw [oneLine_line h, oneLine_line whole, trim, trimStart_append first firstBlank,
      trimEnd_append_of_ne_nil some', alone, ← List.append_assoc, trim, ← same]
  | more l cs h ih =>
    obtain ⟨blanks, blank, same⟩ := ih
    refine ⟨blanks, blank, ?_⟩
    rw [List.append_assoc, List.cons_append, oneLine_lines, oneLine_lines, same, List.append_assoc]
    rfl

end Ends

end ApiCollection.Text

namespace ApiCollection.Java

open Text

/-- Behind a blank and before one, the search knows the same of a text and of the text on one line. -/
theorem ParenSearch.run_oneLine {s : ParenSearch} (legal : s.Legal) (cs : List Char) :
    (s.pause.run (oneLine cs)).pause = (s.pause.run cs).pause ∧
      s.pause.staysOpen (oneLine cs) = s.pause.staysOpen cs := by
  induction cs using lines_induction generalizing s with
  | line cs h =>
    rw [oneLine_line h]
    exact run_trim legal cs
  | more l cs h ih =>
    have legal' := legal_run (legal_pause legal)
    obtain ⟨trimmed, trimmed'⟩ := run_trim legal l
    obtain ⟨below, below'⟩ := ih (legal' l)
    have feed : ∀ s : ParenSearch, s.Legal → s.step '\n' = s.pause ∧ s.step ' ' = s.pause :=
      fun s legal => ⟨step_blank legal (by decide), step_blank legal (by decide)⟩
    have here : (s.pause.run (trim l)).step ' ' = (s.pause.run l).pause := by
      rw [(feed _ (legal' _)).2, trimmed]
    have here' : (s.pause.run l).step '\n' = (s.pause.run l).pause := (feed _ (legal' l)).1
    have other : ∀ (s : ParenSearch) (c : Char), c ≠ ')' → s.closes c = false := by
      intro s c ne
      rw [closes, beq_eq_false_iff_ne.2 ne, Bool.and_false, Bool.false_and]
    rw [oneLine_lines, oneLine_line h]
    constructor
    · rw [run_append, run_append, run_cons, run_cons, here, here', below]
    · rw [staysOpen_append, staysOpen_append, staysOpen, staysOpen, here, here', below', trimmed',
        other _ ' ' (by decide), other _ '\n' (by decide)]

/-- Joining lines keeps the balance of parentheses. -/
theorem parenBalance_oneLine (cs : List Char) : parenBalance (oneLine cs) = parenBalance cs := by
  have start : ParenSearch.Legal {} := rfl
  have same := congrArg ParenSearch.depth (ParenSearch.run_oneLine start cs).1
  rw [ParenSearch.parenBalance_eq, ParenSearch.parenBalance_eq]
  exact same

end ApiCollection.Java
