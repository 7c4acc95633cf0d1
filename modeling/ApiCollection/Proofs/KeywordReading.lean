import ApiCollection.Dto.Source
import ApiCollection.Proofs.Blanks
import ApiCollection.Proofs.StopReading
import Mathlib.Data.List.Infix

/-!
# Reading a keyword and the name behind it

A keyword is read as a whole run of word characters. A text mentions a keyword where such a run is
followed by blanks and a word; a search for the name behind a keyword finds the first mention.
-/

namespace ApiCollection.Text

open Java (takeWhile_stop dropWhile_stop head?_any_stop)

def AreWords (keywords : List String) : Prop :=
  ∀ word ∈ keywords, word.toList.all isWordChar = true ∧ word.toList ≠ []

instance (keywords : List String) : Decidable (AreWords keywords) :=
  inferInstanceAs (Decidable (∀ word ∈ keywords, _ ∧ _))

private theorem word_of_afterBlanks? {cs rest : List Char} (h : afterBlanks? cs = some rest) :
    cs.head?.any isWordChar = false := by
  rw [afterBlanks?] at h
  split at h
  · rename_i blank
    obtain ⟨c, head, blank⟩ := (Option.any_eq_true _ _).1 blank
    rw [head]
    exact (of_isBlank blank).1
  · cases h

/-- A keyword is read when the text begins with it, up to the end of a word. -/
theorem keyword?_eq {keywords : List String} (words : AreWords keywords) (cs : List Char) :
    keyword? keywords cs =
      if String.ofList (cs.takeWhile isWordChar) ∈ keywords then
        (afterBlanks? (cs.dropWhile isWordChar)).map
          fun rest => (String.ofList (cs.takeWhile isWordChar), rest)
      else none := by
  have whole : cs.takeWhile isWordChar ++ cs.dropWhile isWordChar = cs :=
    List.takeWhile_append_dropWhile
  cases found : keyword? keywords cs with
  | some pair =>
    obtain ⟨word, member, read⟩ := List.exists_of_findSome?_eq_some found
    obtain ⟨rest, blank, rfl⟩ := Option.map_eq_some_iff.1 read
    obtain ⟨behind, after, blank⟩ := Option.bind_eq_some_iff.1 blank
    have split := after?_eq_some_iff.1 after
    have each : ∀ c ∈ word.toList, isWordChar c = true := List.all_eq_true.1 (words word member).1
    have ends := word_of_afterBlanks? blank
    have run : cs.takeWhile isWordChar = word.toList := by
      rw [split, List.takeWhile_append_of_pos each, takeWhile_of_head? ends, List.append_nil]
    have left : cs.dropWhile isWordChar = behind := by
      rw [split, List.dropWhile_append_of_pos each, dropWhile_of_head? ends]
    rw [run, left, String.ofList_toList, if_pos member, blank]
    rfl
  | none =>
    rw [keyword?, List.findSome?_eq_none_iff] at found
    split
    · rename_i member
      have none' := found _ member
      rw [String.toList_ofList, after?_eq_some_iff.2 whole.symm, Option.bind_some] at none'
      cases blank : afterBlanks? (cs.dropWhile isWordChar) with
      | none => rfl
      | some rest =>
        rw [blank] at none'
        cases none'
    · rfl

/-- A keyword is read up to the blanks behind it. -/
theorem keyword?_append {keywords : List String} (words : AreWords keywords) {word : String}
    (member : word ∈ keywords) {gap rest : List Char} (blank : gap.all isBlank = true)
    (apart : gap ≠ []) (begins : rest.head?.any isBlank = false) :
    keyword? keywords (word.toList ++ (gap ++ rest)) = some (word, rest) := by
  have letters := List.all_eq_true.1 (words word member).1
  have ends : (gap ++ rest).head?.any isWordChar = false :=
    head?_any_blanks blank (fun c blank => (of_isBlank blank).1) fun empty => absurd empty apart
  rw [keyword?_eq words, List.takeWhile_append_of_pos letters, List.dropWhile_append_of_pos letters,
    takeWhile_of_head? ends, dropWhile_of_head? ends, List.append_nil, String.ofList_toList,
    if_pos member, afterBlanks?_eq_some blank apart begins]
  rfl

def wordBehind? (keywords : List String) (cs : List Char) : Option (List Char) := do
  let (_, rest) ← keyword? keywords cs
  return (← word? rest).1

/-- Whether a text begins with a keyword, and a word or the end of the text is behind it. -/
def mentionsHere (keywords : List String) (cs : List Char) : Bool :=
  keywords.contains (String.ofList (cs.takeWhile isWordChar)) &&
    ((cs.dropWhile isWordChar).head?.any isBlank &&
      (trimStart (cs.dropWhile isWordChar)).head?.all isWordChar)

/-- Whether there is a keyword in a text, also at the end of a word, with blanks behind it and a word
or the end of the text behind them. -/
def mentions (keywords : List String) (cs : List Char) : Bool :=
  cs.tails.any (mentionsHere keywords)

theorem mentions_eq_false {keywords : List String} {cs : List Char} :
    mentions keywords cs = false ↔ ∀ front s, cs = front ++ s → mentionsHere keywords s = false := by
  rw [mentions, List.any_eq_false]
  constructor
  · intro h front s split
    have none' := h s ((List.mem_tails s cs).2 ⟨front, split.symm⟩)
    rwa [Bool.not_eq_true] at none'
  · intro h s member
    obtain ⟨front, split⟩ := (List.mem_tails s cs).1 member
    rw [h front s split.symm]
    exact Bool.false_ne_true

theorem wordBehind?_eq {keywords : List String} (words : AreWords keywords) (cs : List Char) :
    wordBehind? keywords cs =
      if String.ofList (cs.takeWhile isWordChar) ∈ keywords then
        ((afterBlanks? (cs.dropWhile isWordChar)).bind word?).map (·.1)
      else none := by
  rw [wordBehind?, keyword?_eq words]
  split
  · cases afterBlanks? (cs.dropWhile isWordChar) with
    | none => rfl
    | some rest => cases read : word? rest <;> simp [read]
  · rfl

theorem wordBehind?_of_head? {keywords : List String} (words : AreWords keywords) {cs : List Char}
    (h : cs.head?.any isWordChar = false) : wordBehind? keywords cs = none := by
  have empty : String.ofList (cs.takeWhile isWordChar) ∉ keywords := by
    rw [takeWhile_of_head? h]
    intro member
    exact (words _ member).2 rfl
  rw [wordBehind?_eq words, if_neg empty]

theorem word?_isSome {cs : List Char} : (word? cs).isSome = cs.head?.any isWordChar := by
  rw [word?, run?]
  split <;> simp_all

/-- Either all of a text is blank or it begins, without its blanks, with the same character whatever
stands behind it. -/
theorem trimStart_append_cases (cs : List Char) :
    (cs.all isBlank = true ∧ ∀ x, trimStart (cs ++ x) = trimStart x) ∨
      ∃ c left, cs.dropWhile isBlank = c :: left ∧ ∀ x, trimStart (cs ++ x) = c :: (left ++ x) := by
  cases left : cs.dropWhile isBlank with
  | nil =>
    have all : cs.all isBlank = true := List.all_eq_true.2 (List.dropWhile_eq_nil_iff.1 left)
    refine Or.inl ⟨all, fun x => ?_⟩
    rw [trimStart, List.dropWhile_append_of_pos (List.all_eq_true.1 all)]
    rfl
  | cons c rest =>
    refine Or.inr ⟨c, rest, rfl, fun x => ?_⟩
    rw [trimStart, List.dropWhile_append, left]
    rfl

section Stop

variable {keywords : List String} {b : Char} (word : isWordChar b = false) (s : List Char)

include word

theorem mentionsHere_stop_eq (x : List Char) : mentionsHere keywords (s ++ b :: x) =
    (keywords.contains (String.ofList (s.takeWhile isWordChar)) &&
      ((s.dropWhile isWordChar ++ b :: x).head?.any isBlank &&
        (trimStart (s.dropWhile isWordChar ++ b :: x)).head?.all isWordChar)) := by
  rw [mentionsHere, takeWhile_stop word, dropWhile_stop word]

/-- What is read in front of a character of no word is mentioned there. -/
theorem mentionsHere_of_wordBehind? (words : AreWords keywords) {d n : List Char}
    (h : wordBehind? keywords (s ++ b :: d) = some n) : mentionsHere keywords (s ++ [b]) = true := by
  rw [wordBehind?_eq words, takeWhile_stop word, dropWhile_stop word] at h
  split at h
  swap
  · cases h
  rename_i member
  obtain ⟨⟨n', rest'⟩, read, -⟩ := Option.map_eq_some_iff.1 h
  obtain ⟨rest, blanks, read⟩ := Option.bind_eq_some_iff.1 read
  rw [afterBlanks?] at blanks
  split at blanks
  swap
  · cases blanks
  rename_i blank
  obtain rfl := Option.some.inj blanks
  have begins : (trimStart (s.dropWhile isWordChar ++ b :: d)).head?.any isWordChar = true := by
    rw [← word?_isSome, read]
    rfl
  have first : (s.dropWhile isWordChar ++ [b]).head?.any isBlank = true := by
    cases left : s.dropWhile isWordChar with
    | nil => simpa [left] using blank
    | cons c left' => simpa [left] using blank
  rw [mentionsHere_stop_eq word, List.contains_iff_mem.2 member, first, Bool.true_and, Bool.true_and]
  obtain ⟨-, all⟩ | ⟨c, left, -, all⟩ := trimStart_append_cases (s.dropWhile isWordChar)
  · rw [all] at begins ⊢
    cases gap : isBlank b with
    | true => simp [trimStart, gap]
    | false => simp [trimStart, gap, word] at begins
  · rw [all] at begins ⊢
    exact begins

/-- What stands behind a character of no word and no gap does not matter for the mentions in front of
it. -/
theorem mentionsHere_stop (blank : isBlank b = false) (x : List Char) :
    mentionsHere keywords (s ++ b :: x) = mentionsHere keywords (s ++ [b]) := by
  rw [mentionsHere_stop_eq word, mentionsHere_stop_eq word]
  have first : (s.dropWhile isWordChar ++ b :: x).head? = (s.dropWhile isWordChar ++ [b]).head? := by
    cases s.dropWhile isWordChar <;> rfl
  obtain ⟨-, all⟩ | ⟨c, left, -, all⟩ := trimStart_append_cases (s.dropWhile isWordChar)
  · rw [first, all, all]
    simp [trimStart, blank]
  · rw [first, all, all]
    rfl

/-- A mention before a line break is read: the name stands in front of the break, or it is the first
word behind it. -/
theorem wordBehind?_of_mentionsHere (words : AreWords keywords) (blank : isBlank b = true)
    (h : mentionsHere keywords (s ++ [b]) = true) {d first behind : List Char}
    (next : word? (trimStart d) = some (first, behind)) :
    ∃ n, wordBehind? keywords (s ++ b :: d) = some n ∧ (n.length ≤ s.length ∨ n = first) := by
  rw [mentionsHere_stop_eq word, Bool.and_eq_true, Bool.and_eq_true, List.contains_iff_mem] at h
  obtain ⟨member, gap, begins⟩ := h
  have gap' : (s.dropWhile isWordChar ++ b :: d).head?.any isBlank = true := by
    cases left : s.dropWhile isWordChar with
    | nil => simpa [left] using gap
    | cons c left' => simpa [left] using gap
  rw [wordBehind?_eq words, takeWhile_stop word, dropWhile_stop word, if_pos member, afterBlanks?,
    if_pos gap', Option.bind_some]
  obtain ⟨-, all⟩ | ⟨c, left, cut, all⟩ := trimStart_append_cases (s.dropWhile isWordChar)
  · have feed : trimStart (b :: d) = trimStart d := by
      simp [trimStart, blank]
    rw [all, feed, next]
    exact ⟨first, rfl, Or.inr rfl⟩
  · rw [all] at begins ⊢
    have word' : isWordChar c = true := by simpa using begins
    have short : (c :: left).length ≤ s.length := by
      rw [← cut]
      exact (length_dropWhile_le _ _).trans (length_dropWhile_le _ _)
    have run := @takeWhile_stop b (c :: left) d isWordChar word
    rw [List.cons_append] at run
    refine ⟨(c :: left).takeWhile isWordChar, ?_, Or.inl ?_⟩
    · rw [word?, run?, if_pos (by simpa using word'), run]
      rfl
    · exact (List.takeWhile_prefix _).length_le.trans short

end Stop

section Search

variable {α : Type} {read : Option Char → List Char → Option α}

theorem findFrom_of_read {prev : Option Char} {cs : List Char} {a : α} (h : read prev cs = some a) :
    findFrom read prev cs = some a := by
  cases cs with
  | nil => exact h
  | cons c cs => rw [findFrom, h]

/-- A search finds what has a property when all that is read in front of some place has it and the
search from that place on finds something that has it. -/
theorem findFrom_append {P : α → Prop} (xs : List Char) {prev : Option Char} {ys : List Char}
    (front : ∀ f s, xs = f ++ s → s ≠ [] →
      ∀ a, read (f.getLast?.or prev) (s ++ ys) = some a → P a)
    (behind : ∃ a, findFrom read (xs.getLast?.or prev) ys = some a ∧ P a) :
    ∃ a, findFrom read prev (xs ++ ys) = some a ∧ P a := by
  induction xs generalizing prev with
  | nil => exact behind
  | cons c xs ih =>
    have here := front [] (c :: xs) rfl (List.cons_ne_nil c xs)
    rw [List.cons_append] at here
    rw [List.cons_append, findFrom]
    cases found : read prev (c :: (xs ++ ys)) with
    | some a => exact ⟨a, rfl, here a found⟩
    | none =>
      apply ih
      · intro f s split nonempty
        have later := front (c :: f) s (by rw [split]; rfl) nonempty
        rwa [List.getLast?_cons, show (some (f.getLast?.getD c)).or prev =
          f.getLast?.or (some c) by cases f.getLast? <;> rfl] at later
      · rwa [List.getLast?_cons, show (some (xs.getLast?.getD c)).or prev =
          xs.getLast?.or (some c) by cases xs.getLast? <;> rfl] at behind

end Search

end ApiCollection.Text
