import ApiCollection.Proofs.OneLine

/-!
# Words and top-level pieces

The words of a text whose parts are set apart by blanks are those of its parts. A text that closes
the brackets it opens and has no separator outside of them is one piece of a list that is cut at
that separator.
-/

namespace ApiCollection

namespace Text

theorem words_append_cons {b : Char} (blank : isBlank b = true) (xs ys : List Char) :
    words (xs ++ b :: ys) = words xs ++ words ys := by
  simp [words, splitWhere_append blank]

theorem words_blank_cons {b : Char} (blank : isBlank b = true) (cs : List Char) :
    words (b :: cs) = words cs := words_append_cons blank [] cs

theorem words_blanks_append {blanks : List Char} (h : blanks.all isBlank = true) (cs : List Char) :
    words (blanks ++ cs) = words cs := by
  induction blanks with
  | nil => rfl
  | cons b blanks ih =>
    rw [List.all_cons, Bool.and_eq_true] at h
    rw [List.cons_append, words_blank_cons h.1, ih h.2]

theorem words_gap {gap : List Char} (blank : gap.all isBlank = true) (apart : gap ≠ [])
    (xs ys : List Char) : words (xs ++ (gap ++ ys)) = words xs ++ words ys := by
  obtain ⟨b, gap, rfl⟩ := List.exists_cons_of_ne_nil apart
  rw [List.all_cons, Bool.and_eq_true] at blank
  rw [List.cons_append, words_append_cons blank.1, words_blanks_append blank.2]

theorem words_of_solid {cs : List Char} (solid : ∀ c ∈ cs, isBlank c = false) :
    words cs = [cs].filter fun w => !w.isEmpty := by
  rw [words, splitWhere_of_none solid]

private theorem solid_of_mem_splitWhere {p : Char → Bool} {w cs : List Char}
    (h : w ∈ splitWhere p cs) :
    ∀ c ∈ w, p c = false := by
  induction cs generalizing w with
  | nil =>
    obtain rfl : w = [] := by simpa [splitWhere] using h
    simp
  | cons c cs ih =>
    cases separates : p c with
    | true =>
      rw [splitWhere_cons_of_pos separates, List.mem_cons] at h
      obtain rfl | member := h
      · simp
      · exact ih member
    | false =>
      obtain ⟨piece, pieces, split, step⟩ := splitWhere_cons_of_neg separates cs
      rw [split] at ih
      rw [step, List.mem_cons] at h
      obtain rfl | member := h
      · exact List.forall_mem_cons.2 ⟨separates, ih List.mem_cons_self⟩
      · exact ih (List.mem_cons_of_mem piece member)

def Solid (w : List Char) : Prop := w ≠ [] ∧ ∀ c ∈ w, isBlank c = false

private theorem solid_iff {w : List Char} :
    (!w.isEmpty && w.all fun c => !isBlank c) = true ↔ Solid w := by
  simp [Solid]

instance (w : List Char) : Decidable (Solid w) := decidable_of_iff _ solid_iff

theorem Solid.append {v w : List Char} (h : Solid v) (h' : Solid w) : Solid (v ++ w) :=
  ⟨by simp [h.1], List.forall_mem_append.2 ⟨h.2, h'.2⟩⟩

theorem solid_of_mem_words {w cs : List Char} (h : w ∈ words cs) : Solid w := by
  obtain ⟨member, nonempty⟩ := List.mem_filter.1 h
  exact ⟨by simpa using nonempty, solid_of_mem_splitWhere member⟩

/-- Nothing is trimmed of joined words. -/
theorem trim_joinWith {ws : List (List Char)} (solid : ∀ w ∈ ws, Solid w) :
    trim (joinWith [' '] ws) = joinWith [' '] ws := by
  by_cases empty : ws = []
  · subst empty
    rfl
  have first : ∃ c, (joinWith [' '] ws).head? = some c ∧ isBlank c = false := by
    obtain ⟨w, rest, rfl⟩ := List.exists_cons_of_ne_nil empty
    obtain ⟨nonempty, each⟩ := solid w List.mem_cons_self
    obtain ⟨c, w, rfl⟩ := List.exists_cons_of_ne_nil nonempty
    refine ⟨c, ?_, each c List.mem_cons_self⟩
    cases rest with
    | nil => rw [joinWith_singleton, List.head?_cons]
    | cons v rest => rw [joinWith_cons_cons, List.append_assoc, List.cons_append, List.head?_cons]
  have last : ∃ c, (joinWith [' '] ws).getLast? = some c ∧ isBlank c = false := by
    obtain ⟨front, w, rfl⟩ := (List.eq_nil_or_concat ws).resolve_left empty
    rw [List.concat_eq_append] at solid ⊢
    obtain ⟨nonempty, each⟩ := solid w (by simp)
    obtain ⟨w, c, rfl⟩ := (List.eq_nil_or_concat w).resolve_left nonempty
    refine ⟨c, ?_, each c (by simp)⟩
    by_cases alone : front = []
    · simp [alone]
    · rw [joinWith_append _ alone (List.cons_ne_nil _ []), joinWith_singleton,
        List.concat_eq_append, ← List.append_assoc, List.getLast?_concat]
  obtain ⟨c, head, firstBlank⟩ := first
  obtain ⟨d, ending, lastBlank⟩ := last
  have same := @trim_between [] _ [] c d rfl head firstBlank ending lastBlank rfl
  rwa [List.append_nil, List.nil_append] at same

theorem length_le_of_mem_words {w cs : List Char} (member : w ∈ words cs) : w.length ≤ cs.length :=
  ((pieces_words cs).infixes w member).length_le

end Text

namespace Java

open Text

namespace Nesting

def run (s : Nesting) (cs : List Char) : Nesting := cs.foldl step s

def keeps (sep : Char) (s : Nesting) : List Char → Bool
  | [] => true
  | c :: cs => !s.cuts sep c && keeps sep (s.step c) cs

@[simp] theorem run_nil (s : Nesting) : s.run [] = s := rfl

@[simp] theorem run_cons (s : Nesting) (c : Char) (cs : List Char) :
    s.run (c :: cs) = (s.step c).run cs := rfl

theorem run_append (s : Nesting) (xs ys : List Char) : s.run (xs ++ ys) = (s.run xs).run ys :=
  List.foldl_append

theorem keeps_append (sep : Char) (s : Nesting) (xs ys : List Char) :
    s.keeps sep (xs ++ ys) = (s.keeps sep xs && (s.run xs).keeps sep ys) := by
  induction xs generalizing s with
  | nil => simp [keeps]
  | cons c xs ih => simp [keeps, ih, Bool.and_assoc]

end Nesting

theorem piecesFrom_cons (sep : Char) (s : Nesting) (c : Char) (cs : List Char) :
    ∃ first rest, piecesFrom sep (s.step c) cs = first :: rest ∧ piecesFrom sep s (c :: cs) =
      if s.cuts sep c then [] :: first :: rest else (c :: first) :: rest := by
  obtain ⟨first, rest, split⟩ := List.exists_cons_of_ne_nil (piecesFrom_ne_nil sep (s.step c) cs)
  exact ⟨first, rest, split, by rw [piecesFrom, split]⟩

/-- A text in which nothing cuts is one piece. -/
theorem piecesFrom_of_keeps {sep : Char} {s : Nesting} {cs : List Char}
    (kept : s.keeps sep cs = true) : piecesFrom sep s cs = [cs] := by
  induction cs generalizing s with
  | nil => rfl
  | cons c cs ih =>
    rw [Nesting.keeps, Bool.and_eq_true, Bool.not_eq_true'] at kept
    obtain ⟨first, rest, split, whole⟩ := piecesFrom_cons sep s c cs
    obtain ⟨rfl, rfl⟩ := List.cons_eq_cons.1 (split.symm.trans (ih kept.2))
    rw [whole, if_neg (ne_true_of_eq_false kept.1)]

/-- A separator that cuts parts the pieces in front of it from those behind it. -/
theorem piecesFrom_of_cuts {sep : Char} {s : Nesting} {front : List Char}
    (cut : (s.run front).cuts sep sep = true) (cs : List Char) :
    piecesFrom sep s (front ++ sep :: cs) =
      piecesFrom sep s front ++ piecesFrom sep ((s.run front).step sep) cs := by
  induction front generalizing s with
  | nil =>
    obtain ⟨first, rest, split, whole⟩ := piecesFrom_cons sep s sep cs
    rw [Nesting.run_nil] at cut ⊢
    rw [List.nil_append, whole, if_pos cut, split]
    rfl
  | cons c front ih =>
    have later := ih (s := s.step c) cut
    obtain ⟨first, rest, split, whole⟩ := piecesFrom_cons sep s c front
    obtain ⟨first', rest', split', whole'⟩ := piecesFrom_cons sep s c (front ++ sep :: cs)
    rw [split, split', List.cons_append] at later
    obtain ⟨rfl, rfl⟩ := List.cons_eq_cons.1 later
    rw [List.cons_append, whole', whole, Nesting.run_cons]
    split <;> rfl

/-- Whether a text closes what it opens, and no separator stands outside of all brackets. -/
def Flat (sep : Char) (cs : List Char) : Prop :=
  Nesting.keeps sep {} cs = true ∧ Nesting.run {} cs = {}

theorem Flat.append {sep : Char} {xs ys : List Char} (h : Flat sep xs) (h' : Flat sep ys) :
    Flat sep (xs ++ ys) := by
  constructor
  · rw [Nesting.keeps_append, h.1, h.2, h'.1]
    rfl
  · rw [Nesting.run_append, h.2, h'.2]

def stops : List Char := ['"', '<', '(', '\x7b', '>', ')', '\x7d']

def isPlain (sep c : Char) : Bool := !(sep :: stops).contains c

theorem isPlain_of_class {sep : Char} {p : Char → Bool} (others : (sep :: stops).any p = false)
    {c : Char} (h : p c = true) : isPlain sep c = true := by
  rw [isPlain, Bool.not_eq_true', List.contains_eq_mem, decide_eq_false_iff_not]
  intro member
  exact List.any_eq_false.1 others c member h

theorem Nesting.step_plain {sep c : Char} (h : isPlain sep c = true) {s : Nesting}
    (closed : s.quoted = false) : s.step c = s ∧ s.cuts sep c = false := by
  simp [isPlain, stops] at h
  obtain ⟨other, quote, opens, paren, brace, closes, paren', brace'⟩ := h
  constructor
  · simp [Nesting.step, closed, quote, opens, paren, brace, closes, paren', brace']
  · simp [Nesting.cuts, other]

/-- Whether a text at some depth of brackets closes what it opens, and no separator of it cuts. -/
def SteadyAt (sep : Char) (depth : Nat) (cs : List Char) : Prop :=
  Nesting.keeps sep ⟨depth, false, false⟩ cs = true ∧
    Nesting.run ⟨depth, false, false⟩ cs = ⟨depth, false, false⟩

/-- Whether a text is steady outside of brackets and inside of any number of them. -/
def Balanced (sep : Char) (cs : List Char) : Prop := ∀ depth, SteadyAt sep depth cs

def Sheltered (sep : Char) (cs : List Char) : Prop := ∀ depth, SteadyAt sep (depth + 1) cs

section Steady

variable {sep : Char} {depth : Nat} {xs ys : List Char}

theorem SteadyAt.append (h : SteadyAt sep depth xs) (h' : SteadyAt sep depth ys) :
    SteadyAt sep depth (xs ++ ys) := by
  constructor
  · rw [Nesting.keeps_append, h.1, h.2, h'.1]
    rfl
  · rw [Nesting.run_append, h.2, h'.2]

theorem Balanced.append (h : Balanced sep xs) (h' : Balanced sep ys) : Balanced sep (xs ++ ys) :=
  fun depth => (h depth).append (h' depth)

theorem Sheltered.append (h : Sheltered sep xs) (h' : Sheltered sep ys) :
    Sheltered sep (xs ++ ys) := fun depth => (h depth).append (h' depth)

theorem Balanced.flat (h : Balanced sep xs) : Flat sep xs := h 0

theorem Balanced.sheltered (h : Balanced sep xs) : Sheltered sep xs := fun depth => h (depth + 1)

theorem balanced_nil : Balanced sep [] := fun _ => ⟨rfl, rfl⟩

theorem balanced_of_plain {cs : List Char} (plain : cs.all (isPlain sep) = true) :
    Balanced sep cs := by
  intro depth
  induction cs with
  | nil => exact balanced_nil depth
  | cons c cs ih =>
    rw [List.all_cons, Bool.and_eq_true] at plain
    obtain ⟨same, kept⟩ := @Nesting.step_plain sep c plain.1 ⟨depth, false, false⟩ rfl
    obtain ⟨keeps, ends⟩ := ih plain.2
    constructor
    · rw [Nesting.keeps, same, kept, keeps]
      rfl
    · rw [Nesting.run_cons, same, ends]

theorem Sheltered.joinWith {glue : List Char} (between : Sheltered sep glue)
    {texts : List (List Char)} (h : ∀ t ∈ texts, Sheltered sep t) :
    Sheltered sep (joinWith glue texts) :=
  joinWith_closed balanced_nil.sheltered (fun _ _ => Sheltered.append) between h

variable (sep' : isPlain '"' sep = true)

include sep'

/-- Inside of brackets separators do not cut. -/
theorem sheltered_separator : Sheltered sep [sep] := by
  intro depth
  have same := (@Nesting.step_plain _ _ sep' ⟨(depth + 1 : Nat), false, false⟩ rfl).1
  have nested : ((depth + 1 : Nat) : Int) ≠ 0 := by omega
  constructor
  · rw [Nesting.keeps, Nesting.cuts, same]
    simpa [Nesting.keeps] using nested
  · rw [Nesting.run_cons, same, Nesting.run_nil]

theorem cuts_of_mem_stops {s : Nesting} {c : Char} (h : c ∈ stops) : s.cuts sep c = false := by
  have other : (c == sep) = false := by
    rw [beq_eq_false_iff_ne]
    rintro rfl
    simp [isPlain, h] at sep'
  rw [Nesting.cuts, other, Bool.and_false, Bool.false_and]

def bracketPairs : List (Char × Char) := [('<', '>'), ('(', ')'), ('\x7b', '\x7d')]

/-- A text in brackets is balanced. -/
theorem balanced_bracketed {pair : Char × Char} (brackets : pair ∈ bracketPairs)
    {inside : List Char} (h : Sheltered sep inside) :
    Balanced sep (pair.1 :: (inside ++ [pair.2])) := by
  intro depth
  have opens : Nesting.step ⟨depth, false, false⟩ pair.1 = ⟨(depth + 1 : Nat), false, false⟩ ∧
      pair.1 ∈ stops := by
    simp only [bracketPairs, List.mem_cons, List.not_mem_nil, or_false] at brackets
    obtain rfl | rfl | rfl := brackets <;> exact ⟨rfl, by decide⟩
  have closes : Nesting.step ⟨(depth + 1 : Nat), false, false⟩ pair.2 = ⟨depth, false, false⟩ ∧
      pair.2 ∈ stops := by
    simp only [bracketPairs, List.mem_cons, List.not_mem_nil, or_false] at brackets
    obtain rfl | rfl | rfl := brackets <;> exact ⟨by simp [Nesting.step], by decide⟩
  obtain ⟨kept, ends⟩ := h depth
  constructor
  · rw [Nesting.keeps, opens.1, Nesting.keeps_append, kept, ends, Nesting.keeps,
      cuts_of_mem_stops sep' opens.2, cuts_of_mem_stops sep' closes.2]
    rfl
  · rw [Nesting.run_cons, opens.1, Nesting.run_append, ends, Nesting.run_cons, closes.1,
      Nesting.run_nil]

/-- A string without quotes and backslashes in it is balanced. -/
theorem balanced_string {t : List Char} (quote : '"' ∉ t) (backslash : '\\' ∉ t) :
    Balanced sep ('"' :: (t ++ ['"'])) := by
  intro depth
  have inside : Nesting.keeps sep ⟨depth, true, false⟩ (t ++ ['"']) = true ∧
      Nesting.run ⟨depth, true, false⟩ (t ++ ['"']) = ⟨depth, false, false⟩ := by
    induction t with
    | nil => exact ⟨rfl, rfl⟩
    | cons c t ih =>
      rw [List.mem_cons, not_or] at quote backslash
      have same : Nesting.step ⟨depth, true, false⟩ c = ⟨depth, true, false⟩ := by
        simp [Nesting.step, Ne.symm quote.1, Ne.symm backslash.1]
      obtain ⟨kept, ends⟩ := ih quote.2 backslash.2
      rw [List.cons_append, Nesting.keeps, Nesting.run_cons, same, kept, ends]
      exact ⟨rfl, rfl⟩
  have opens : Nesting.step ⟨depth, false, false⟩ '"' = ⟨depth, true, false⟩ := rfl
  constructor
  · rw [Nesting.keeps, opens, inside.1, cuts_of_mem_stops sep' (by decide)]
    rfl
  · rw [Nesting.run_cons, opens, inside.2]

end Steady

theorem flat_of_plain {sep : Char} {cs : List Char} (h : cs.all (isPlain sep) = true) :
    Flat sep cs := (balanced_of_plain h).flat

theorem plain_of_class {sep : Char} {p : Char → Bool} (others : (sep :: stops).any p = false)
    {cs : List Char} (h : cs.all p = true) : cs.all (isPlain sep) = true :=
  all_wider (fun _ => isPlain_of_class others) h

theorem flat_of_class {sep : Char} {p : Char → Bool} (others : (sep :: stops).any p = false)
    {cs : List Char} (h : cs.all p = true) : Flat sep cs := flat_of_plain (plain_of_class others h)

private theorem piecesFrom_joinWith {sep : Char} (plain : Nesting.step {} sep = {})
    {texts : List (List Char)} (nonempty : texts ≠ []) (flat : ∀ t ∈ texts, Flat sep t) :
    piecesFrom sep {} (joinWith [sep] texts) = texts := by
  induction texts with
  | nil => exact absurd rfl nonempty
  | cons t texts ih =>
    rw [List.forall_mem_cons] at flat
    obtain ⟨⟨kept, ends⟩, others⟩ := flat
    cases texts with
    | nil => rw [joinWith_singleton, piecesFrom_of_keeps kept]
    | cons u texts =>
      have cuts : (Nesting.run {} t).cuts sep sep = true := by
        rw [ends, Nesting.cuts, plain]
        simp
      rw [joinWith_cons_cons, List.append_assoc, List.singleton_append, piecesFrom_of_cuts cuts,
        piecesFrom_of_keeps kept, ends, plain, ih (List.cons_ne_nil u texts) others]
      rfl

/-- Texts without separators outside of brackets are the pieces of what they are joined to. -/
theorem splitTopLevel_joinWith {sep : Char} (plain : Nesting.step {} sep = {})
    {texts : List (List Char)} (flat : ∀ t ∈ texts, Flat sep t)
    (solid : ∀ t ∈ texts, allBlank t = false) :
    splitTopLevel sep (joinWith [sep] texts) = texts := by
  by_cases empty : texts = []
  · subst empty
    rfl
  · rw [splitTopLevel, piecesFrom_joinWith plain empty flat, dropBlankLast, if_neg]
    intro blank
    obtain ⟨t, last, blank⟩ := (Option.any_eq_true _ _).1 blank
    rw [solid t (List.mem_of_getLast? last)] at blank
    cases blank

/-- Whether a text closes its angle brackets and as many more as are open in front of it. -/
def closesAngles (depth : Nat) : List Char → Bool
  | [] => depth == 0
  | c :: cs =>
    if c == '<' then closesAngles (depth + 1) cs
    else if c == '>' then depth != 0 && closesAngles (depth - 1) cs
    else closesAngles depth cs

theorem angles_ne {sep : Char} (h : isPlain '"' sep = true) :
    ('<' == sep) = false ∧ ('>' == sep) = false := by
  constructor
  all_goals
    rw [beq_eq_false_iff_ne]
    rintro rfl
    exact absurd h (by decide)

/-- Inside of an angle bracket nothing cuts, and the bracket stays open. -/
theorem Nesting.keeps_angles {sep : Char} (sep' : isPlain '"' sep = true) {cs : List Char}
    {depth : Nat} (plain : ∀ c ∈ cs, c = '<' ∨ c = '>' ∨ c = sep ∨ isPlain sep c = true)
    (closes : closesAngles depth cs = true) :
    Nesting.keeps sep ⟨depth + 1, false, false⟩ cs = true ∧
      Nesting.run ⟨depth + 1, false, false⟩ cs = ⟨1, false, false⟩ := by
  have opening := angles_ne sep'
  have nested (depth : Nat) : ((depth : Int) + 1 == 0) = false := by
    rw [beq_eq_false_iff_ne]
    omega
  induction cs generalizing depth with
  | nil =>
    obtain rfl : depth = 0 := by simpa [closesAngles] using closes
    exact ⟨rfl, rfl⟩
  | cons c cs ih =>
    rw [List.forall_mem_cons] at plain
    -- one character: where it leads to, and that it does not cut
    have here (next : Nat) (step : Nesting.step ⟨depth + 1, false, false⟩ c = ⟨next + 1, false, false⟩)
        (kept : Nesting.cuts ⟨depth + 1, false, false⟩ sep c = false)
        (closes : closesAngles next cs = true) :
        Nesting.keeps sep ⟨depth + 1, false, false⟩ (c :: cs) = true ∧
          Nesting.run ⟨depth + 1, false, false⟩ (c :: cs) = ⟨1, false, false⟩ := by
      obtain ⟨keeps, ends⟩ := ih plain.2 closes
      rw [Nesting.keeps, Nesting.run_cons, step, kept, keeps]
      exact ⟨rfl, ends⟩
    rw [closesAngles] at closes
    split at closes
    · rename_i angle
      obtain rfl := beq_iff_eq.1 angle
      exact here (depth + 1) rfl (by simp [Nesting.cuts, opening.1]) closes
    split at closes
    · rename_i angle
      obtain rfl := beq_iff_eq.1 angle
      rw [Bool.and_eq_true, bne_iff_ne] at closes
      obtain ⟨depth, rfl⟩ := Nat.exists_eq_succ_of_ne_zero closes.1
      refine here depth ?_ (by simp [Nesting.cuts, opening.2]) closes.2
      simp [Nesting.step]
    · rename_i open' close'
      obtain rfl | rfl | rfl | passes := plain.1
      · exact absurd rfl open'
      · exact absurd rfl close'
      · have same := (@Nesting.step_plain _ _ sep' ⟨depth + 1, false, false⟩ rfl).1
        refine here depth same ?_ closes
        rw [Nesting.cuts, same, nested, Bool.and_false]
      · obtain ⟨same, kept⟩ := @Nesting.step_plain _ _ passes ⟨depth + 1, false, false⟩ rfl
        exact here depth same kept closes

/-- A text in angle brackets is flat when it closes the brackets it opens. -/
theorem flat_angles {sep : Char} (sep' : isPlain '"' sep = true) {inside : List Char}
    (plain : ∀ c ∈ inside, c = '<' ∨ c = '>' ∨ c = sep ∨ isPlain sep c = true)
    (closes : closesAngles 0 inside = true) : Flat sep ('<' :: (inside ++ ['>'])) := by
  obtain ⟨kept, ends⟩ := Nesting.keeps_angles sep' plain closes
  have opening := angles_ne sep'
  have step : Nesting.step {} '<' = ⟨(0 : Nat) + 1, false, false⟩ := rfl
  constructor
  · rw [Nesting.keeps, step, Nesting.keeps_append, kept, ends]
    simp [Nesting.keeps, Nesting.cuts, opening]
  · rw [Nesting.run_cons, step, Nesting.run_append, ends]
    rfl

end Java

end ApiCollection
