import ApiCollection.Text.Reading
import Mathlib.Data.List.TakeWhile

/-!
# Blanks

Blanks are told from all other characters that readers look for, and what is trimmed away at the
ends of a text is known when the text between is.
-/

namespace ApiCollection.Text

def blankCodes : List Nat :=
  List.range' 9 5 ++ [32, 0x85, 0xA0, 0x1680] ++ List.range' 0x2000 11 ++
    [0x2028, 0x2029, 0x202F, 0x205F, 0x3000]

private theorem mem_blankCodes {c : Char} (h : isBlank c = true) : c.toNat ∈ blankCodes := by
  simp only [isBlank, Bool.or_eq_true, Bool.and_eq_true, decide_eq_true_eq, beq_iff_eq] at h
  simp only [blankCodes, List.mem_append, List.mem_range'_1, List.mem_cons, List.not_mem_nil]
  omega

def Ranges.avoids (table : Ranges) (n : Nat) : Bool :=
  table.toList.all fun (first, last) => n < first || last < n

private theorem Ranges.has_of_avoids {table : Ranges} {n : Nat} (h : table.avoids n = true) :
    table.has n = false := by
  rw [Ranges.has, Array.any_eq_false']
  intro range member holds
  have outside := List.all_eq_true.1 h range (Array.mem_toList_iff.2 member)
  simp only [Bool.or_eq_true, Bool.and_eq_true, decide_eq_true_eq] at outside holds
  omega

/-- A blank is no letter, no digit and no character of a word. -/
theorem of_isBlank {c : Char} (h : isBlank c = true) :
    isWordChar c = false ∧ isAlphanumeric c = false := by
  have code := mem_blankCodes h
  by_cases ascii : c.toNat < 128
  · have outside : ∀ n ∈ blankCodes, n < 128 →
        (Char.ofNat n).isAlphanum = false ∧ Char.ofNat n ≠ '_' := by decide +kernel
    have here := outside c.toNat code ascii
    rw [Char.ofNat_toNat] at here
    rw [isWordChar, isAlphanumeric, if_pos ascii, if_pos ascii, here.1]
    exact ⟨beq_eq_false_iff_ne.2 here.2, rfl⟩
  · have outside : ∀ n ∈ blankCodes, 128 ≤ n → alphabeticTable.avoids n = true ∧
        wordExtraTable.avoids n = true ∧ numericExtraTable.avoids n = true := by
      decide +kernel
    obtain ⟨alphabetic, word, numeric⟩ := outside c.toNat code (Nat.not_lt.1 ascii)
    rw [isWordChar, isAlphanumeric, if_neg ascii, if_neg ascii, Ranges.has_of_avoids alphabetic,
      Ranges.has_of_avoids word, Ranges.has_of_avoids numeric]
    exact ⟨rfl, rfl⟩

theorem isBlank_of_isWordChar {c : Char} (h : isWordChar c = true) : isBlank c = false := by
  rw [Bool.eq_false_iff]
  intro blank
  rw [(of_isBlank blank).1] at h
  cases h

theorem isTabOrSpace_cases {c : Char} (h : isTabOrSpace c = true) : c = ' ' ∨ c = '\t' := by
  simpa [isTabOrSpace] using h

theorem isBlank_of_isTabOrSpace {c : Char} (h : isTabOrSpace c = true) : isBlank c = true := by
  obtain rfl | rfl := isTabOrSpace_cases h <;> decide

/-- A text of one class is one of every wider class. -/
theorem all_wider {p q : Char → Bool} (wider : ∀ c, p c = true → q c = true) {cs : List Char}
    (h : cs.all p = true) : cs.all q = true := by
  rw [List.all_eq_true] at h ⊢
  exact fun c member => wider c (h c member)

theorem all_of_suffix {p : Char → Bool} {s cs : List Char} (h : cs.all p = true)
    (suffix : s <:+ cs) : s.all p = true := by
  rw [List.all_eq_true] at h ⊢
  exact fun c member => h c (suffix.mem member)

theorem all_isBlank {cs : List Char} (h : cs.all isTabOrSpace = true) : cs.all isBlank = true :=
  all_wider (fun _ => isBlank_of_isTabOrSpace) h

/-- A character that is not of a class stands in no text of that class. -/
theorem not_mem_of_all {p : Char → Bool} {cs : List Char} {c : Char} (h : cs.all p = true)
    (other : p c = false) : c ∉ cs := by
  intro member
  rw [List.all_eq_true.1 h c member] at other
  cases other

theorem takeWhile_of_head? {p : Char → Bool} {cs : List Char} (h : cs.head?.any p = false) :
    cs.takeWhile p = [] := by
  cases cs with
  | nil => rfl
  | cons c cs =>
    rw [List.head?_cons, Option.any_some] at h
    rw [List.takeWhile_cons, h]
    rfl

theorem dropWhile_of_head? {p : Char → Bool} {cs : List Char} (h : cs.head?.any p = false) :
    cs.dropWhile p = cs := by
  cases cs with
  | nil => rfl
  | cons c cs =>
    rw [List.head?_cons, Option.any_some] at h
    rw [List.dropWhile_cons, h]
    rfl

theorem head?_any_dropWhile (p : Char → Bool) (cs : List Char) :
    (cs.dropWhile p).head?.any p = false := by
  have stops := List.head?_dropWhile_not p cs
  cases head : (cs.dropWhile p).head? with
  | none => rfl
  | some c =>
    rw [head] at stops
    exact stops

theorem head?_trimStart (cs : List Char) : (trimStart cs).head?.any isBlank = false :=
  head?_any_dropWhile isBlank cs

theorem run?_append {p : Char → Bool} {s r : List Char} (inside : s.all p = true)
    (nonempty : s ≠ []) (behind : r.head?.any p = false) : run? p (s ++ r) = some (s, r) := by
  have each : ∀ c ∈ s, p c = true := List.all_eq_true.1 inside
  have first : (s ++ r).head?.any p = true := by
    cases s with
    | nil => exact absurd rfl nonempty
    | cons c s => exact each c List.mem_cons_self
  rw [run?, if_pos first, List.takeWhile_append_of_pos each, List.dropWhile_append_of_pos each,
    takeWhile_of_head? behind, dropWhile_of_head? behind, List.append_nil]

theorem head?_any_blanks {p : Char → Bool} {blanks rest : List Char}
    (h : blanks.all isBlank = true) (other : ∀ c, isBlank c = true → p c = false)
    (ends : blanks = [] → rest.head?.any p = false) : (blanks ++ rest).head?.any p = false := by
  cases blanks with
  | nil => exact ends rfl
  | cons c blanks => exact other c (List.all_eq_true.1 h c List.mem_cons_self)

theorem head?_any_apart {p : Char → Bool} {blanks : List Char} (h : blanks.all isBlank = true)
    (apart : blanks ≠ []) (other : ∀ c, isBlank c = true → p c = false) (rest : List Char) :
    (blanks ++ rest).head?.any p = false :=
  head?_any_blanks h other fun empty => absurd empty apart

/-- Blanks end a word. -/
theorem head?_word_apart {blanks : List Char} (h : blanks.all isBlank = true) (apart : blanks ≠ [])
    (rest : List Char) : (blanks ++ rest).head?.any isWordChar = false :=
  head?_any_apart h apart (fun _ blank => (of_isBlank blank).1) rest

theorem trimStart_of_head? {rest : List Char} (h : rest.head?.any isBlank = false) :
    trimStart rest = rest := dropWhile_of_head? h

theorem trimStart_blanks_append {blanks : List Char} (h : blanks.all isBlank = true)
    (cs : List Char) : trimStart (blanks ++ cs) = trimStart cs := by
  rw [trimStart, List.dropWhile_append_of_pos (List.all_eq_true.1 h)]
  rfl

theorem trimStart_blanks {blanks : List Char} (h : blanks.all isBlank = true)
    {rest : List Char} (behind : rest.head?.any isBlank = false) :
    trimStart (blanks ++ rest) = rest := by
  rw [trimStart_blanks_append h, trimStart_of_head? behind]

theorem afterBlanks?_eq_some {blanks : List Char} (h : blanks.all isBlank = true)
    (nonempty : blanks ≠ []) {rest : List Char} (behind : rest.head?.any isBlank = false) :
    afterBlanks? (blanks ++ rest) = some rest := by
  have first : (blanks ++ rest).head?.any isBlank = true := by
    cases blanks with
    | nil => exact absurd rfl nonempty
    | cons c blanks => exact List.all_eq_true.1 h c List.mem_cons_self
  rw [afterBlanks?, if_pos first, trimStart_blanks h behind]

theorem trimStart_ne_nil {cs : List Char} (h : allBlank cs = false) : trimStart cs ≠ [] := by
  intro empty
  have blank : allBlank cs = true := by
    rw [allBlank, List.all_eq_true]
    exact List.dropWhile_eq_nil_iff.1 empty
  rw [blank] at h
  cases h

theorem trimEnd_blanks {blanks : List Char} (h : blanks.all isBlank = true) (cs : List Char) :
    trimEnd (cs ++ blanks) = trimEnd cs := by
  have reversed : ∀ c ∈ blanks.reverse, isBlank c = true := by
    intro c hc
    exact List.all_eq_true.1 h c (List.mem_reverse.1 hc)
  rw [trimEnd, trimEnd, dropEndWhile, dropEndWhile, List.reverse_append,
    List.dropWhile_append_of_pos reversed]

/-- Blanks at the end are trimmed away. -/
theorem trim_append_blanks {blanks : List Char} (h : blanks.all isBlank = true) (cs : List Char) :
    trim (cs ++ blanks) = trim cs := by
  by_cases empty : trimStart cs = []
  · have all : (cs ++ blanks).dropWhile isBlank = [] := by
      rw [List.dropWhile_eq_nil_iff]
      intro c hc
      obtain front | back := List.mem_append.1 hc
      · exact List.dropWhile_eq_nil_iff.1 empty c front
      · exact List.all_eq_true.1 h c back
    rw [trim, trim, empty, trimStart, all]
  · have front : trimStart (cs ++ blanks) = trimStart cs ++ blanks := by
      rw [trimStart, List.dropWhile_append, if_neg (by simpa [trimStart] using empty)]
      rfl
    rw [trim, trim, front, trimEnd_blanks h]

theorem exists_trimEnd (cs : List Char) :
    ∃ behind : List Char, behind.all isBlank = true ∧ cs = trimEnd cs ++ behind := by
  refine ⟨(cs.reverse.takeWhile isBlank).reverse, ?_, ?_⟩
  · rw [List.all_reverse]
    exact List.all_takeWhile
  · rw [trimEnd, dropEndWhile, ← List.reverse_append, List.takeWhile_append_dropWhile,
      List.reverse_reverse]

theorem trimEnd_of_all {blanks : List Char} (h : blanks.all isBlank = true) : trimEnd blanks = [] :=
  trimEnd_blanks h []

theorem trimStart_of_all {blanks : List Char} (h : blanks.all isBlank = true) :
    trimStart blanks = [] := List.dropWhile_eq_nil_iff.2 (List.all_eq_true.1 h)

/-- A text is its trimmed text between blanks. -/
theorem exists_trim (cs : List Char) : ∃ front behind : List Char, front.all isBlank = true ∧
    behind.all isBlank = true ∧ cs = front ++ (trim cs ++ behind) := by
  obtain ⟨behind, blank, split⟩ := exists_trimEnd (trimStart cs)
  have start : cs.takeWhile isBlank ++ trimStart cs = cs := List.takeWhile_append_dropWhile
  refine ⟨cs.takeWhile isBlank, behind, List.all_takeWhile, blank, ?_⟩
  rw [trim, ← split, start]

/-- Blanks in front are trimmed away. -/
theorem trim_blanks_append {blanks : List Char} (h : blanks.all isBlank = true) (cs : List Char) :
    trim (blanks ++ cs) = trim cs := by
  rw [trim, trim, trimStart_blanks_append h]

theorem trim_trimStart (cs : List Char) : trim (trimStart cs) = trim cs := by
  have start : cs.takeWhile isBlank ++ trimStart cs = cs := List.takeWhile_append_dropWhile
  have blank : (cs.takeWhile isBlank).all isBlank = true := List.all_takeWhile
  have same := trim_blanks_append blank (trimStart cs)
  rw [start] at same
  exact same.symm

theorem trim_trimEnd (cs : List Char) : trim (trimEnd cs) = trim cs := by
  obtain ⟨behind, blank, split⟩ := exists_trimEnd cs
  have same := trim_append_blanks blank (trimEnd cs)
  rw [← split] at same
  exact same.symm

theorem trim_withoutReturn (line : List Char) : trim (withoutReturn line) = trim line := by
  rw [withoutReturn]
  cases found : before? ['\r'] line with
  | none => rfl
  | some rest =>
    obtain ⟨reversed, start, rfl⟩ := Option.map_eq_some_iff.1 found
    have text : line = reversed.reverse ++ ['\r'] := by
      rw [← List.reverse_reverse line, after?_eq_some_iff.1 start]
      simp
    rw [text]
    exact (trim_append_blanks (by decide) _).symm

theorem trimStart_append {behind : List Char} {c : Char} (first : behind.head? = some c)
    (blank : isBlank c = false) (cs : List Char) :
    trimStart (cs ++ behind) = trimStart cs ++ behind := by
  have start : behind.head?.any isBlank = false := by
    rw [first]
    exact blank
  rw [trimStart, trimStart, List.dropWhile_append, dropWhile_of_head? start]
  split
  · rename_i empty
    rw [List.isEmpty_iff.1 empty, List.nil_append]
  · rfl

theorem trimEnd_append {front : List Char} {d : Char} (last : front.getLast? = some d)
    (blank : isBlank d = false) (cs : List Char) : trimEnd (front ++ cs) = front ++ trimEnd cs := by
  have first : front.reverse.head? = some d := by
    rw [List.head?_reverse, last]
  have reversed := trimStart_append first blank cs.reverse
  rw [trimEnd, trimEnd, dropEndWhile, dropEndWhile, List.reverse_append]
  rw [trimStart, trimStart] at reversed
  rw [reversed, List.reverse_append, List.reverse_reverse]

theorem trimEnd_of_getLast? {cs : List Char} {d : Char} (last : cs.getLast? = some d)
    (blank : isBlank d = false) : trimEnd cs = cs := by
  have whole := trimEnd_append last blank []
  rwa [List.append_nil, show trimEnd [] = [] from rfl, List.append_nil] at whole

theorem trimEnd_append_of_ne_nil {cs : List Char} (h : trimEnd cs ≠ []) (front : List Char) :
    trimEnd (front ++ cs) = front ++ trimEnd cs := by
  have some' : ((cs.reverse.dropWhile isBlank).isEmpty) = false := by
    rw [List.isEmpty_eq_false_iff]
    exact fun empty => h (congrArg List.reverse empty)
  rw [trimEnd, trimEnd, dropEndWhile, dropEndWhile, List.reverse_append, List.dropWhile_append,
    some', if_neg Bool.false_ne_true, List.reverse_append, List.reverse_reverse]

/-- Trimming at the end alone leaves the blanks in front. -/
theorem trimEnd_eq_append_trim (cs : List Char) :
    ∃ front : List Char, front.all isBlank = true ∧ trimEnd cs = front ++ trim cs := by
  have start : cs.takeWhile isBlank ++ trimStart cs = cs := List.takeWhile_append_dropWhile
  by_cases empty : trim cs = []
  · obtain ⟨front, behind, blank, blank', split⟩ := exists_trim cs
    rw [empty, List.nil_append] at split
    refine ⟨[], rfl, ?_⟩
    rw [empty, split, trimEnd_blanks blank']
    exact trimEnd_of_all blank
  · refine ⟨cs.takeWhile isBlank, List.all_takeWhile, ?_⟩
    have ending := trimEnd_append_of_ne_nil empty (cs.takeWhile isBlank)
    rwa [start] at ending

/-- What stands in front of a text and behind it is trimmed on its own when the ends of the text are
known. -/
theorem trim_around {cs : List Char} {c d : Char} (first : cs.head? = some c)
    (firstBlank : isBlank c = false) (last : cs.getLast? = some d) (lastBlank : isBlank d = false)
    (front behind : List Char) :
    trim (front ++ (cs ++ behind)) = trimStart front ++ (cs ++ trimEnd behind) := by
  have start : (cs ++ behind).head? = some c := by
    rw [List.head?_append, first]
    rfl
  have stop : (trimStart front ++ cs).getLast? = some d := by
    rw [List.getLast?_append, last]
    rfl
  rw [trim, trimStart_append start firstBlank, ← List.append_assoc, trimEnd_append stop lastBlank,
    List.append_assoc]

/-- What is trimmed of a text whose ends are known. -/
theorem trim_between {front cs behind : List Char} {c d : Char} (h : front.all isBlank = true)
    (first : cs.head? = some c) (firstBlank : isBlank c = false)
    (last : cs.getLast? = some d) (lastBlank : isBlank d = false)
    (h' : behind.all isBlank = true) : trim (front ++ (cs ++ behind)) = cs := by
  rw [trim_around first firstBlank last lastBlank, trimStart_of_all h, trimEnd_of_all h',
    List.append_nil, List.nil_append]

private theorem head?_trim (cs : List Char) : (trim cs).head?.any isBlank = false := by
  cases head : (trim cs).head? with
  | none => rfl
  | some c =>
    obtain ⟨behind, -, split⟩ := exists_trimEnd (trimStart cs)
    have start : (trimStart cs).head? = some c := by
      rw [split, List.head?_append]
      exact congrArg (Option.or · _) head
    have stays := head?_trimStart cs
    rwa [start] at stays

private theorem getLast?_trim (cs : List Char) : (trim cs).getLast?.any isBlank = false := by
  rw [trim, trimEnd, dropEndWhile, List.getLast?_reverse]
  exact head?_any_dropWhile isBlank _

@[simp] theorem trim_trim (cs : List Char) : trim (trim cs) = trim cs := by
  by_cases empty : trim cs = []
  · rw [empty]
    rfl
  obtain ⟨c, rest, split⟩ := List.exists_cons_of_ne_nil empty
  have first : (trim cs).head? = some c := by
    rw [split]
    rfl
  obtain ⟨d, last⟩ := Option.ne_none_iff_exists'.1 (fun none' => empty (List.getLast?_eq_none_iff.1 none'))
  have firstBlank := head?_trim cs
  have lastBlank := getLast?_trim cs
  rw [first, Option.any_some] at firstBlank
  rw [last, Option.any_some] at lastBlank
  have same := @trim_between [] _ [] c d rfl first firstBlank last lastBlank rfl
  rwa [List.append_nil, List.nil_append] at same

end ApiCollection.Text
