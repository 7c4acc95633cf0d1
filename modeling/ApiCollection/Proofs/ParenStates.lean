import ApiCollection.Proofs.MemberLayout

/-!
# States of the search for a closing parenthesis

What the search knows behind a text is found character by character. The balance of parentheses
and the place of the closing one follow from these states, and it does not matter for them how many
blanks stand in a gap.
-/

namespace ApiCollection.Java

open Text

namespace ParenSearch

def step (s : ParenSearch) (c : Char) : ParenSearch :=
  match s.literal with
  | some quote =>
    if s.escaped then { s with escaped := false }
    else if c == '\\' then { s with escaped := true }
    else if c == quote then { s with literal := none }
    else s
  | none =>
    if c == '"' || c == '\'' then { s with literal := some c }
    else if c == '(' then { s with depth := s.depth + 1 }
    else if c == ')' then { s with depth := s.depth - 1 }
    else s

def run (s : ParenSearch) (cs : List Char) : ParenSearch := cs.foldl step s

def closes (s : ParenSearch) (c : Char) : Bool := s.literal.isNone && c == ')' && s.depth == 1

def staysOpen (s : ParenSearch) : List Char → Bool
  | [] => true
  | c :: cs => !s.closes c && (s.step c).staysOpen cs

@[simp] theorem run_nil (s : ParenSearch) : s.run [] = s := rfl

@[simp] theorem run_cons (s : ParenSearch) (c : Char) (cs : List Char) :
    s.run (c :: cs) = (s.step c).run cs := rfl

theorem run_append (s : ParenSearch) (xs ys : List Char) :
    s.run (xs ++ ys) = (s.run xs).run ys := List.foldl_append

theorem staysOpen_append (s : ParenSearch) (xs ys : List Char) :
    s.staysOpen (xs ++ ys) = (s.staysOpen xs && (s.run xs).staysOpen ys) := by
  induction xs generalizing s with
  | nil => rfl
  | cons c xs ih => rw [List.cons_append, staysOpen, staysOpen, ih, run_cons, Bool.and_assoc]

theorem close?_cons (s : ParenSearch) (c : Char) (cs : List Char) :
    s.close? (c :: cs) = if s.closes c then some ([], cs)
      else ((s.step c).close? cs).map fun (inside, rest) => (c :: inside, rest) := by
  rw [close?, closes, step]
  cases s.literal with
  | some quote =>
    dsimp only
    rw [Option.isNone_some, Bool.false_and, Bool.false_and, if_neg Bool.false_ne_true]
    split
    · rfl
    split
    · rfl
    split <;> rfl
  | none =>
    dsimp only
    rw [Option.isNone_none, Bool.true_and]
    by_cases quote : (c == '"' || c == '\'') = true
    · have other : (c == ')') = false := by
        rw [Bool.or_eq_true, beq_iff_eq, beq_iff_eq] at quote
        obtain rfl | rfl := quote <;> decide
      rw [if_pos quote, if_pos quote, other, Bool.false_and, if_neg Bool.false_ne_true]
    rw [if_neg quote, if_neg quote]
    by_cases opens : (c == '(') = true
    · have other : (c == ')') = false := by
        rw [beq_iff_eq.1 opens]
        decide
      rw [if_pos opens, if_pos opens, other, Bool.false_and, if_neg Bool.false_ne_true]
    rw [if_neg opens, if_neg opens]
    by_cases paren : (c == ')') = true
    · rw [if_pos paren, if_pos paren, paren, Bool.true_and]
    · rw [if_neg paren, if_neg paren, Bool.not_eq_true] at *
      rw [paren, Bool.false_and, if_neg Bool.false_ne_true]

/-- A text that leaves the parenthesis open is skipped. -/
theorem close?_staysOpen {s : ParenSearch} {cs : List Char} (h : s.staysOpen cs = true)
    (rest : List Char) : s.close? (cs ++ rest) =
      ((s.run cs).close? rest).map fun (inside, rest) => (cs ++ inside, rest) := by
  induction cs generalizing s with
  | nil => simp
  | cons c cs ih =>
    rw [staysOpen, Bool.and_eq_true, Bool.not_eq_true'] at h
    rw [List.cons_append, close?_cons, h.1, if_neg Bool.false_ne_true, ih h.2, Option.map_map]
    rfl

theorem staysOpen_of_close? {s : ParenSearch} {cs inside rest : List Char}
    (h : s.close? cs = some (inside, rest)) :
    s.staysOpen inside = true ∧ (s.run inside).closes ')' = true := by
  induction cs generalizing s inside with
  | nil => cases h
  | cons c cs ih =>
    rw [close?_cons] at h
    split at h
    · rename_i closes'
      obtain ⟨rfl, -⟩ := Prod.mk.inj (Option.some.inj h)
      have paren : c = ')' := by
        rw [closes, Bool.and_eq_true, Bool.and_eq_true] at closes'
        exact beq_iff_eq.1 closes'.1.2
      exact ⟨rfl, paren ▸ closes'⟩
    · rename_i open'
      obtain ⟨⟨inside', rest'⟩, found, same⟩ := Option.map_eq_some_iff.1 h
      obtain ⟨rfl, rfl⟩ := Prod.mk.inj same
      obtain ⟨stays, ends⟩ := ih found
      rw [staysOpen, Bool.not_eq_true] at *
      rw [open', stays]
      exact ⟨rfl, ends⟩

end ParenSearch

/-- An argument list is enclosed when the parenthesis before it stays open in it and is closed
behind it. -/
theorem enclosed_iff {cs : List Char} : Enclosed cs ↔
    ParenSearch.staysOpen { depth := 1 } cs = true ∧
      (ParenSearch.run { depth := 1 } cs).closes ')' = true := by
  constructor
  · exact ParenSearch.staysOpen_of_close?
  · rintro ⟨stays, closes⟩
    rw [Enclosed, insideParens?, ParenSearch.close?_staysOpen stays, ParenSearch.close?_cons,
      if_pos closes]
    exact congrArg (fun inside => some (inside, [])) (List.append_nil cs)

namespace ParenSearch

theorem of_closes {s : ParenSearch} {c : Char} (h : s.closes c = true) :
    s.literal = none ∧ c = ')' ∧ s.depth = 1 := by
  rw [closes, Bool.and_eq_true, Bool.and_eq_true, Option.isNone_iff_eq_none, beq_iff_eq,
    beq_iff_eq] at h
  exact ⟨h.1.1, h.1.2, h.2⟩

def deeper (s : ParenSearch) (n : Int) : ParenSearch := { s with depth := s.depth + n }

/-- A literal that ends counts for nothing, and one that does not end hides what follows. -/
theorem depth_run_literal (n : Int) (quote : Char) (cs : List Char) :
    (run ⟨n, some quote, false⟩ cs).depth = (run ⟨n, none, false⟩ (splitLiteral quote cs).2).depth := by
  fun_induction splitLiteral quote cs with
  | case1 => rfl
  | case2 c backslash =>
    rw [run_cons, step]
    simp [backslash]
  | case3 c backslash d rest ih =>
    have escape : step ⟨n, some quote, false⟩ c = ⟨n, some quote, true⟩ := by
      rw [step]
      simp [backslash]
    have skip : step ⟨n, some quote, true⟩ d = ⟨n, some quote, false⟩ := by
      rw [step]
      rfl
    rw [run_cons, escape, run_cons, skip, ih]
  | case4 c cs plain ends =>
    have closed : step ⟨n, some quote, false⟩ c = ⟨n, none, false⟩ := by
      rw [step]
      simp [plain, ends]
    rw [run_cons, closed]
  | case5 c cs plain other ih =>
    have same : step ⟨n, some quote, false⟩ c = ⟨n, some quote, false⟩ := by
      rw [step]
      simp [plain, other]
    rw [run_cons, same, ih]

/-- The balance of a text is what the depth behind it gains. -/
theorem depth_run (n : Int) (cs : List Char) :
    (run ⟨n, none, false⟩ cs).depth = n + parenBalance cs := by
  fun_induction parenBalance cs generalizing n with
  | case1 => simp
  | case2 c cs quote ih =>
    have opened : step ⟨n, none, false⟩ c = ⟨n, some c, false⟩ := by
      rw [step]
      simp only [quote, if_true]
    rw [run_cons, opened, depth_run_literal, ih]
  | case3 c cs plain opens ih =>
    have deeper : step ⟨n, none, false⟩ c = ⟨n + 1, none, false⟩ := by
      rw [step]
      simp only [plain, opens, if_true]
      rfl
    rw [run_cons, deeper, ih]
    omega
  | case4 c cs plain other closes ih =>
    have higher : step ⟨n, none, false⟩ c = ⟨n - 1, none, false⟩ := by
      rw [step]
      simp only [plain, other, closes, if_true]
      rfl
    rw [run_cons, higher, ih]
    omega
  | case5 c cs plain other other' ih =>
    have same : step ⟨n, none, false⟩ c = ⟨n, none, false⟩ := by
      rw [step]
      simp only [plain, other, other']
      rfl
    rw [run_cons, same, ih]

theorem parenBalance_eq (cs : List Char) : parenBalance cs = (run {} cs).depth := by
  rw [show ({} : ParenSearch) = ⟨0, none, false⟩ from rfl, depth_run, Int.zero_add]

theorem step_paren {s : ParenSearch} (closed : s.literal = none) :
    s.step '(' = s.deeper 1 ∧ s.step ')' = s.deeper (-1) := by
  obtain ⟨depth, literal, escaped⟩ := s
  obtain rfl := closed
  exact ⟨rfl, rfl⟩

/-- As long as the parenthesis is open, the depth stays positive. -/
theorem depth_pos {s : ParenSearch} {cs : List Char} (h : s.staysOpen cs = true)
    (positive : 0 < s.depth) : 0 < (s.run cs).depth := by
  induction cs generalizing s with
  | nil => exact positive
  | cons c cs ih =>
    rw [staysOpen, Bool.and_eq_true, Bool.not_eq_true'] at h
    refine ih h.2 ?_
    cases literal : s.literal with
    | some quote =>
      have same : (s.step c).depth = s.depth := by
        rw [step, literal]
        dsimp only
        split_ifs <;> rfl
      omega
    | none =>
      by_cases closes' : c = ')'
      · have more : s.depth ≠ 1 := by
          intro one
          rw [closes, literal, closes', one] at h
          exact absurd h.1 (by decide)
        rw [closes', (step_paren literal).2]
        change 0 < s.depth + -1
        omega
      · have grows : s.depth ≤ (s.step c).depth := by
          rw [step, literal]
          simp only [beq_iff_eq, if_neg closes']
          split_ifs
          · exact Int.le_refl _
          · exact Int.le_add_one (Int.le_refl _)
          · exact Int.le_refl _
        omega

def Legal (s : ParenSearch) : Prop := s.literal.any isBlank = false

private theorem legal_step {s : ParenSearch} (legal : s.Legal) (c : Char) : (s.step c).Legal := by
  cases literal : s.literal with
  | some quote =>
    rw [Legal, literal] at legal
    rw [step, literal]
    dsimp only
    split_ifs
    · exact legal
    · exact legal
    · rfl
    · rwa [Legal, literal]
  | none =>
    rw [step, literal]
    dsimp only
    split_ifs with quote
    · rw [Bool.or_eq_true, beq_iff_eq, beq_iff_eq] at quote
      obtain rfl | rfl := quote <;> rfl
    · rfl
    · rfl
    · exact legal

theorem legal_run {s : ParenSearch} (legal : s.Legal) (cs : List Char) : (s.run cs).Legal := by
  induction cs generalizing s with
  | nil => exact legal
  | cons c cs ih => exact ih (legal_step legal c)

/-- What is known behind a blank: a backslash before it has taken it. -/
def pause (s : ParenSearch) : ParenSearch := { s with escaped := s.literal.isNone && s.escaped }

@[simp] theorem pause_pause (s : ParenSearch) : s.pause.pause = s.pause := by
  obtain ⟨depth, literal, escaped⟩ := s
  cases literal <;> rfl

theorem legal_pause {s : ParenSearch} (legal : s.Legal) : s.pause.Legal := legal

theorem closes_pause (s : ParenSearch) (c : Char) : s.pause.closes c = s.closes c := rfl

theorem step_blank {s : ParenSearch} (legal : s.Legal) {c : Char} (blank : isBlank c = true) :
    s.step c = s.pause := by
  have other {d : Char} (h : isBlank d = false) : (c == d) = false := by
    rw [beq_eq_false_iff_ne]
    rintro rfl
    rw [blank] at h
    cases h
  obtain ⟨depth, literal, escaped⟩ := s
  cases literal with
  | some quote =>
    have notQuote : (c == quote) = false := other legal
    simp only [step, other (by decide : isBlank '\\' = false), notQuote]
    cases escaped <;> rfl
  | none =>
    simp only [step, other (by decide : isBlank '"' = false), other (by decide : isBlank '\'' = false),
      other (by decide : isBlank '(' = false), other (by decide : isBlank ')' = false)]
    rfl

theorem run_blanks {s : ParenSearch} (legal : s.Legal) {blanks : List Char}
    (h : blanks.all isBlank = true) (nonempty : blanks ≠ []) : s.run blanks = s.pause := by
  induction blanks generalizing s with
  | nil => exact absurd rfl nonempty
  | cons c blanks ih =>
    rw [List.all_cons, Bool.and_eq_true] at h
    rw [run_cons, step_blank legal h.1]
    by_cases last : blanks = []
    · rw [last, run_nil]
    · rw [ih (legal_pause legal) h.2 last, pause_pause]

/-- After a blank, further blanks change nothing. -/
theorem run_pause_blanks {s : ParenSearch} (legal : s.Legal) {blanks : List Char}
    (h : blanks.all isBlank = true) : s.pause.run blanks = s.pause := by
  by_cases none' : blanks = []
  · rw [none', run_nil]
  · rw [run_blanks (legal_pause legal) h none', pause_pause]

theorem pause_run_blanks {s : ParenSearch} (legal : s.Legal) {blanks : List Char}
    (h : blanks.all isBlank = true) : (s.run blanks).pause = s.pause := by
  by_cases none' : blanks = []
  · rw [none', run_nil]
  · rw [run_blanks legal h none', pause_pause]

theorem staysOpen_blanks (s : ParenSearch) {blanks : List Char} (h : blanks.all isBlank = true) :
    s.staysOpen blanks = true := by
  induction blanks generalizing s with
  | nil => rfl
  | cons c blanks ih =>
    rw [List.all_cons, Bool.and_eq_true] at h
    have other : (c == ')') = false := by
      rw [beq_eq_false_iff_ne]
      rintro rfl
      exact absurd h.1 (by decide)
    rw [staysOpen, closes, other, ih _ h.2, Bool.and_false, Bool.false_and]
    rfl

/-- Trimming a text behind a blank changes nothing that a blank behind the text does not. -/
theorem run_trim {s : ParenSearch} (legal : s.Legal) (cs : List Char) :
    (s.pause.run (trim cs)).pause = (s.pause.run cs).pause ∧
      s.pause.staysOpen (trim cs) = s.pause.staysOpen cs := by
  obtain ⟨front, behind, blank, blank', split⟩ := exists_trim cs
  have between := run_pause_blanks legal blank
  have legal' := legal_run (legal_pause legal) (trim cs)
  constructor
  · conv_rhs => rw [split, run_append, run_append, between, pause_run_blanks legal' blank']
  · conv_rhs => rw [split, staysOpen_append, staysOpen_append, staysOpen_blanks _ blank,
      staysOpen_blanks _ blank', between, Bool.true_and, Bool.and_true]

end ParenSearch

end ApiCollection.Java
