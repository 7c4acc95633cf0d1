import ApiCollection.Text.Casing
import Mathlib.Data.List.Infix
import Mathlib.Tactic.MkIffOfInductiveProp

/-!
# Traces of letters

Whether a text speaks of lists depends on a few letters, in any case. The trace of a text holds
these letters in their small form and a blank for every other one. Case mappings of whole texts
keep the trace. The capital image of a single character keeps it, too, unless the character is a
ligature whose parts come to light.
-/

namespace ApiCollection.Text

/-- What is decided for the members of a list one by one holds of all of them. -/
theorem forall_mem_of_all {α : Type} {P : α → Prop} [DecidablePred P] {l : List α}
    (h : (l.all fun a => decide (P a)) = true) : ∀ a ∈ l, P a := by
  intro a ha
  exact of_decide_eq_true (List.all_eq_true.1 h a ha)

def CaseRuns.avoids (table : CaseRuns) (n : Nat) : Bool :=
  table.toList.all fun (first, last, _, move) =>
    !(first + move ≤ (n : Int) && (n : Int) ≤ last + move)

private theorem CaseRuns.image?_ne {table : CaseRuns} {n m image : Nat} (positive : 0 < n)
    (avoids : table.avoids n = true) (found : table.image? m = some image) : image ≠ n := by
  simp only [CaseRuns.image?, Option.map_eq_some_iff] at found
  obtain ⟨⟨first, last, step, move⟩, at', rfl⟩ := found
  have inside := Array.find?_some at'
  have member := Array.mem_of_find?_eq_some at'
  have outside := List.all_eq_true.1 avoids _ (Array.mem_toList_iff.2 member)
  simp only [Bool.and_eq_true, decide_eq_true_eq, Bool.not_eq_true', Bool.and_eq_false_iff,
    decide_eq_false_iff_not] at inside outside
  intro same
  dsimp only at same outside
  omega

private theorem eq_of_ofNat_eq {n : Nat} {c : Char} (positive : 0 < c.toNat)
    (same : Char.ofNat n = c) :
    n = c.toNat := by
  subst same
  by_cases valid : n.isValidChar
  · rw [Char.ofNat, dif_pos valid]
    rfl
  · rw [Char.ofNat, dif_neg valid] at positive
    exact absurd positive (by decide)

/-- Characters that no run moves to are not met as images. -/
theorem CaseRuns.ofNat_image_not_mem {table : CaseRuns} {ds : List Char} {n m : Nat}
    (avoids : ∀ d ∈ ds, 0 < d.toNat ∧ table.avoids d.toNat = true)
    (found : table.image? m = some n) : Char.ofNat n ∉ ds := by
  intro member
  obtain ⟨positive, avoids⟩ := avoids _ member
  exact image?_ne positive avoids found (eq_of_ofNat_eq positive rfl)

/-- What holds of the first 128 characters holds of all characters of ASCII. -/
theorem forall_ascii {P : Char → Prop} (each : ∀ n < 128, P (Char.ofNat n)) {c : Char}
    (ascii : c.toNat < 128) : P c := by
  have := each c.toNat ascii
  rwa [Char.ofNat_toNat] at this

/-- The small image of a character is one character, except for the dotted capital I. -/
theorem lowerChar_cases (c : Char) :
    (c.toNat < 128 ∧ lowerChar c = [c.toLower]) ∨ (c = '\u0130' ∧ lowerChar c = ['i', '\u0307']) ∨
      (128 ≤ c.toNat ∧ ∃ n, lowerRuns.image? c.toNat = some n ∧ lowerChar c = [Char.ofNat n]) ∨
      (128 ≤ c.toNat ∧ lowerChar c = [c]) := by
  unfold lowerChar
  split
  · exact .inl ⟨‹_›, rfl⟩
  · split
    · rename_i dotted
      refine .inr (.inl ⟨?_, rfl⟩)
      rw [beq_iff_eq] at dotted
      rw [← Char.ofNat_toNat c, dotted]
    · split
      · exact .inr (.inr (.inl ⟨by omega, _, ‹_›, rfl⟩))
      · exact .inr (.inr (.inr ⟨by omega, rfl⟩))

/-- The capital image of a character is one character, unless the character stands in the table of
expansions. -/
theorem upperChar_cases (c : Char) :
    (c.toNat < 128 ∧ upperChar c = [c.toUpper]) ∨
      (∃ n, upperRuns.image? c.toNat = some n ∧ upperChar c = [Char.ofNat n]) ∨
      (∃ e ∈ upperExpansions, e.1 = c.toNat ∧ upperChar c = e.2.map Char.ofNat) ∨
      ((∀ e ∈ upperExpansions, e.1 ≠ c.toNat) ∧ upperChar c = [c]) := by
  unfold upperChar
  split
  · exact .inl ⟨‹_›, rfl⟩
  · split
    · exact .inr (.inl ⟨_, ‹_›, rfl⟩)
    · split
      · rename_i found
        have same := Array.find?_some found
        exact .inr (.inr (.inl ⟨_, Array.mem_of_find?_eq_some found, beq_iff_eq.1 same, rfl⟩))
      · rename_i missing
        rw [Array.find?_eq_none] at missing
        exact .inr (.inr (.inr ⟨fun e he same => missing e he (beq_iff_eq.2 same), rfl⟩))

def listLetters : List Char := ['a', 'i', 'l', 's', 't']

def letterOrBlank (c : Char) : Char := if c ∈ listLetters then c else ' '

/-- The ligatures whose capital image shows one of the letters that `list` and `all` begin with. -/
def ligatures : List Char := ['ﬂ', 'ﬄ', 'ẚ']

def letterTrace (c : Char) : List Char := (lowerChar c).map letterOrBlank

def trace (cs : List Char) : List Char := cs.flatMap letterTrace

@[simp] theorem trace_append (cs ds : List Char) : trace (cs ++ ds) = trace cs ++ trace ds :=
  List.flatMap_append

def ligatureCount (cs : List Char) : Nat := cs.countP (· ∈ ligatures)

def firstLetters : List Char := ['a', 'l', 'A', 'L']

def tracedLetters : List Char :=
  '\u0130' :: (ligatures ++ listLetters ++ listLetters.map Char.toUpper)

-- The tables are evaluated only here: once for the images of the runs, once for ASCII, once for the
-- expansions and once for the characters that have a rule of their own.
theorem runs_avoid :
    (tracedLetters.all fun d => decide (0 < d.toNat ∧ lowerRuns.avoids d.toNat = true)) = true ∧
      ((ligatures ++ firstLetters).all fun d =>
        decide (0 < d.toNat ∧ upperRuns.avoids d.toNat = true)) = true := by
  decide +kernel

/-- No run for small letters moves a character to one of the letters in any case, to the dotted
capital I, or to a ligature. -/
theorem small_image_not_mem {n m : Nat} (found : lowerRuns.image? m = some n) :
    Char.ofNat n ∉ tracedLetters :=
  CaseRuns.ofNat_image_not_mem (forall_mem_of_all runs_avoid.1) found

/-- No run for capital letters moves a character to a letter that `list` or `all` begins with, or
to a ligature. -/
theorem capital_image_not_mem {n m : Nat} (found : upperRuns.image? m = some n) :
    Char.ofNat n ∉ ligatures ++ firstLetters :=
  CaseRuns.ofNat_image_not_mem (forall_mem_of_all runs_avoid.2) found

/-- What the images of a character show of the letters, in ASCII. -/
@[mk_iff] structure PlainImages (c : Char) : Prop where
  trace_lower : trace (lowerChar c) = letterTrace c
  trace_upper : trace (upperChar c) = letterTrace c
  traced : c.toLower ∈ listLetters → c ∈ tracedLetters
  first : letterOrBlank c.toLower = 'a' ∨ letterOrBlank c.toLower = 'l' → c ∈ firstLetters
  lower_count : ligatureCount [c.toLower] ≤ ligatureCount [c]
  upper_ligature : c.toUpper ∉ ligatures

instance : DecidablePred PlainImages := fun c => decidable_of_iff _ (plainImages_iff c).symm

theorem plainImages_of_ascii {c : Char} (ascii : c.toNat < 128) : PlainImages c :=
  forall_ascii (by decide +kernel) ascii

/-- The parts of an expansion are no ligatures, only a ligature has a first letter among its parts,
and every ligature has an expansion. -/
theorem expansions_quiet :
    (∀ e ∈ upperExpansions, Char.ofNat e.1 ∈ ligatures ∨
      ∀ n ∈ e.2, Char.ofNat n ∉ firstLetters) ∧
      (∀ e ∈ upperExpansions, ∀ n ∈ e.2, Char.ofNat n ∉ ligatures) ∧
      (ligatures.all fun d => decide (∃ e ∈ upperExpansions, e.1 = d.toNat)) = true := by
  simp only [← Array.mem_toList_iff]
  decide +kernel

/-- The images of the dotted capital I and of the sigmas. -/
theorem special_images :
    trace (lowerChar '\u0130') = letterTrace '\u0130' ∧
      ((letterTrace '\u0130').all fun d => decide (d ≠ 'a' ∧ d ≠ 'l')) = true ∧
      letterTrace 'Σ' = [' '] ∧ letterTrace 'σ' = [' '] ∧ trace (lowerWord ['Σ']) = trace ['Σ'] := by
  decide +kernel

theorem letterOrBlank_of_not_mem {c : Char} (h : c ∉ listLetters) : letterOrBlank c = ' ' :=
  if_neg h

private theorem not_mem_listLetters {c : Char} (h : 128 ≤ c.toNat) : c ∉ listLetters := by
  have ascii : ∀ d ∈ listLetters, d.toNat < 128 := forall_mem_of_all (by decide)
  intro member
  have := ascii c member
  omega

theorem letterTrace_of_ascii {c : Char} (h : c.toNat < 128) :
    letterTrace c = [letterOrBlank c.toLower] := by
  rw [letterTrace, lowerChar, if_pos h, List.map_singleton]

/-- Outside ASCII only the dotted capital I leaves a letter in a trace. -/
theorem letterTrace_of_not_ascii {c : Char} (h : 128 ≤ c.toNat) (dotless : c ≠ '\u0130') :
    letterTrace c = [' '] := by
  obtain ⟨ascii, -⟩ | ⟨dotted, -⟩ | ⟨-, n, found, image⟩ | ⟨-, image⟩ := lowerChar_cases c
  · omega
  · exact absurd dotted dotless
  · rw [letterTrace, image, List.map_singleton, letterOrBlank_of_not_mem]
    intro member
    exact small_image_not_mem found (by simp [tracedLetters, member])
  · rw [letterTrace, image, List.map_singleton, letterOrBlank_of_not_mem (not_mem_listLetters h)]

/-- A character that is none of the letters in any case leaves no letter in a trace. -/
theorem letterTrace_of_not_mem {c : Char} (h : c ∉ tracedLetters) : letterTrace c = [' '] := by
  by_cases ascii : c.toNat < 128
  · have small : c.toLower ∉ listLetters := mt (plainImages_of_ascii ascii).traced h
    rw [letterTrace_of_ascii ascii, letterOrBlank_of_not_mem small]
  · refine letterTrace_of_not_ascii (Nat.not_lt.1 ascii) ?_
    rintro rfl
    exact h List.mem_cons_self

/-- The small image of a character has the trace of the character. -/
theorem trace_lowerChar (c : Char) : trace (lowerChar c) = letterTrace c := by
  obtain ⟨ascii, -⟩ | ⟨rfl, -⟩ | ⟨-, n, found, image⟩ | ⟨-, image⟩ := lowerChar_cases c
  · exact (plainImages_of_ascii ascii).trace_lower
  · exact special_images.1
  · have outside := small_image_not_mem found
    have blank : letterOrBlank (Char.ofNat n) = ' ' :=
      letterOrBlank_of_not_mem fun member => outside (by simp [tracedLetters, member])
    rw [letterTrace, image, trace, List.flatMap_singleton, letterTrace_of_not_mem outside,
      List.map_singleton, blank]
  · rw [image, trace, List.flatMap_singleton]

/-- Only the letters themselves, in any case, begin the words `list` and `all` in a trace. -/
theorem mem_of_mem_letterTrace {c d : Char} (h : d ∈ letterTrace c) (first : d = 'a' ∨ d = 'l') :
    c ∈ firstLetters := by
  by_cases ascii : c.toNat < 128
  · rw [letterTrace_of_ascii ascii, List.mem_singleton] at h
    subst h
    exact (plainImages_of_ascii ascii).first first
  · have others : ∀ d ∈ letterTrace c, d ≠ 'a' ∧ d ≠ 'l' := by
      by_cases dotted : c = '\u0130'
      · subst dotted
        exact forall_mem_of_all special_images.2.1
      · rw [letterTrace_of_not_ascii (Nat.not_lt.1 ascii) dotted]
        exact forall_mem_of_all (by decide)
    obtain ⟨notA, notL⟩ := others d h
    exact absurd first (not_or.2 ⟨notA, notL⟩)

/-- The capital image of a character has the trace of the character, or no letter that `list` or
`all` begins with, unless the character is a ligature. -/
theorem trace_upperChar {c : Char} (h : c ∉ ligatures) :
    trace (upperChar c) = letterTrace c ∨ ∀ d ∈ trace (upperChar c), ¬(d = 'a' ∨ d = 'l') := by
  obtain ⟨ascii, -⟩ | ⟨n, found, image⟩ | ⟨e, member, source, image⟩ | ⟨-, image⟩ :=
    upperChar_cases c
  · exact .inl (plainImages_of_ascii ascii).trace_upper
  · right
    rw [image, trace, List.flatMap_singleton]
    intro d hd first
    exact capital_image_not_mem found (List.mem_append_right _ (mem_of_mem_letterTrace hd first))
  · right
    rw [image, trace]
    intro d hd first
    obtain ⟨f, hf, hd⟩ := List.mem_flatMap.1 hd
    obtain ⟨n, hn, rfl⟩ := List.mem_map.1 hf
    obtain ligature | quiet := expansions_quiet.1 e member
    · rw [source, Char.ofNat_toNat] at ligature
      exact h ligature
    · exact quiet n hn (mem_of_mem_letterTrace hd first)
  · left
    rw [image, trace, List.flatMap_singleton]

@[simp] theorem ligatureCount_append (cs ds : List Char) :
    ligatureCount (cs ++ ds) = ligatureCount cs + ligatureCount ds := List.countP_append

theorem ligatureCount_eq_zero {cs : List Char} (h : ∀ c ∈ cs, c ∉ ligatures) :
    ligatureCount cs = 0 := by
  rw [ligatureCount, List.countP_eq_zero]
  simpa using h

/-- There is no ligature in a capital image. -/
theorem ligatureCount_upperChar (c : Char) : ligatureCount (upperChar c) = 0 := by
  apply ligatureCount_eq_zero
  obtain ⟨ascii, image⟩ | ⟨n, found, image⟩ | ⟨e, member, -, image⟩ | ⟨missing, image⟩ :=
    upperChar_cases c
  all_goals rw [image]
  · intro d hd
    rw [List.mem_singleton.1 hd]
    exact (plainImages_of_ascii ascii).upper_ligature
  · intro d hd
    rw [List.mem_singleton.1 hd]
    exact fun member => capital_image_not_mem found (List.mem_append_left _ member)
  · intro d hd
    obtain ⟨n, hn, rfl⟩ := List.mem_map.1 hd
    exact expansions_quiet.2.1 e member n hn
  · intro d hd member
    rw [List.mem_singleton.1 hd] at member
    obtain ⟨e, he, same⟩ := forall_mem_of_all expansions_quiet.2.2 c member
    exact missing e he same

/-- A small image has no more ligatures than the character. -/
theorem ligatureCount_lowerChar (c : Char) : ligatureCount (lowerChar c) ≤ ligatureCount [c] := by
  obtain ⟨ascii, image⟩ | ⟨rfl, image⟩ | ⟨-, n, found, image⟩ | ⟨-, image⟩ := lowerChar_cases c
  all_goals rw [image]
  · exact (plainImages_of_ascii ascii).lower_count
  · decide
  · rw [ligatureCount_eq_zero]
    · exact Nat.zero_le _
    · intro d hd member
      rw [List.mem_singleton.1 hd] at member
      exact small_image_not_mem found (by simp [tracedLetters, member])

/-- The small image of a text holds the trace of the text. -/
theorem map_lowerFrom (before cs : List Char) :
    (lowerFrom before cs).map letterOrBlank = trace cs := by
  induction cs generalizing before with
  | nil => rfl
  | cons c cs ih =>
    have image : (if c == 'Σ' then
        if startsCased before && !startsCased cs then ['ς'] else ['σ']
      else lowerChar c).map letterOrBlank = letterTrace c := by
      by_cases sigma : c = 'Σ'
      · subst sigma
        rw [if_pos (by rfl), special_images.2.2.1]
        split <;> decide
      · rw [if_neg (by simpa using sigma)]
        rfl
    rw [lowerFrom, List.map_append, image, ih]
    rfl

theorem map_lower (cs : List Char) : (lower cs).map letterOrBlank = trace cs := map_lowerFrom [] cs

theorem trace_lowerWord (cs : List Char) : trace (lowerWord cs) = trace cs := by
  induction cs using lowerWord.induct with
  | case1 => rfl
  | case2 c sigma =>
    rw [beq_iff_eq.1 sigma]
    exact special_images.2.2.2.2
  | case3 c other =>
    rw [lowerWord, if_neg other, trace_lowerChar, trace, List.flatMap_singleton]
  | case4 c rest nonempty ih =>
    rw [lowerWord.eq_3 _ _ nonempty, trace_append, trace_lowerChar, ih]
    rfl

theorem ligatureCount_lowerWord (cs : List Char) :
    ligatureCount (lowerWord cs) ≤ ligatureCount cs := by
  induction cs using lowerWord.induct with
  | case1 => exact Nat.le_refl _
  | case2 c sigma =>
    rw [lowerWord, if_pos sigma]
    exact Nat.le_trans (by decide) (Nat.zero_le _)
  | case3 c other =>
    rw [lowerWord, if_neg other]
    exact ligatureCount_lowerChar c
  | case4 c rest nonempty ih =>
    rw [lowerWord.eq_3 _ _ nonempty, ligatureCount_append, ← List.singleton_append,
      ligatureCount_append]
    exact Nat.add_le_add (ligatureCount_lowerChar c) ih

end ApiCollection.Text
