import ApiCollection.Proofs.ByteOffsets
import ApiCollection.Proofs.DirectiveLines
import Mathlib.Algebra.GroupWithZero.Nat

/-!
# Collected directives

Which directives over several lines are collected whatever stands around them: exactly those whose
later lines are kept for the first one. A directive with other lines loses some of its text already
when it stands alone.
-/

namespace ApiCollection.Java

open Text

def totalLength (texts : List (List Char)) : Nat := (texts.map List.length).sum

@[simp] theorem totalLength_nil : totalLength [] = 0 := rfl

@[simp] theorem totalLength_cons (text : List Char) (texts : List (List Char)) :
    totalLength (text :: texts) = text.length + totalLength texts := rfl

@[simp] theorem totalLength_append (xs ys : List (List Char)) :
    totalLength (xs ++ ys) = totalLength xs + totalLength ys := by
  rw [totalLength, List.map_append, List.sum_append]
  rfl

/-- An argument list that is read is the front of the text, blanks and an inside in parentheses. -/
theorem exists_of_argumentList? {cs inside written rest : List Char}
    (h : argumentList? cs = some (inside, written, rest)) : cs = written ++ rest ∧
      ∃ space, space.all isAsciiBlank = true ∧ written = space ++ '(' :: (inside ++ [')']) := by
  rw [argumentList?] at h
  split at h
  · rename_i behind paren
    obtain ⟨⟨inside', rest'⟩, found, same⟩ := Option.map_eq_some_iff.1 h
    simp only [Prod.mk.injEq] at same
    obtain ⟨rfl, rfl, rfl⟩ := same
    have start : cs.takeWhile isAsciiBlank ++ cs.dropWhile isAsciiBlank = cs :=
      List.takeWhile_append_dropWhile
    rw [paren, eq_append_of_insideParens? found] at start
    exact ⟨start.symm.trans (by simp), cs.takeWhile isAsciiBlank, List.all_takeWhile, by simp⟩
  · cases h

/-- A directive is its sign, its name and its argument list. -/
theorem raw_of_directiveNamed? {qualified behind : List Char} {d : Directive}
    (found : directiveNamed? qualified behind = some d) : d.raw.toList =
      '@' :: (qualified ++ (argumentList? behind).elim [] fun parts => parts.2.1) := by
  rw [directiveNamed?] at found
  dsimp only at found
  split at found
  · cases found
  · obtain rfl := Option.some.inj found
    exact String.toList_ofList

/-- A directive and what follows it take up the text behind its sign. -/
theorem length_raw {qualified behind : List Char} {d : Directive}
    (found : directiveNamed? qualified behind = some d) :
    d.raw.toList.length + (afterArguments behind).length = 1 + qualified.length + behind.length := by
  rw [raw_of_directiveNamed? found, afterArguments, List.length_cons, List.length_append]
  cases list : argumentList? behind with
  | none =>
    simp
    omega
  | some parts =>
    obtain ⟨inside, written, rest⟩ := parts
    have whole := congrArg List.length (exists_of_argumentList? list).1
    rw [List.length_append] at whole
    simp
    omega

/-- What holds of the empty text, and of a text with more in front of it or with a directive in front
of it, holds of every text and its directives. -/
theorem directives_induction {motive : List Char → List Directive → Prop} (nil : motive [] [])
    (pass : ∀ front rest ds, motive rest ds → motive (front ++ rest) ds)
    (found : ∀ qualified behind d ds, qualified.all isNameChar = true →
      directiveNamed? qualified behind = some d → motive (afterArguments behind) ds →
        motive ('@' :: (qualified ++ behind)) (d :: ds)) (cs : List Char) :
    motive cs (directives cs) := by
  fun_induction DirectiveScan.of cs with
  | case1 =>
    rw [directives_nil]
    exact nil
  | case2 c cs quote ih =>
    rw [directives, DirectiveScan.of, if_pos quote, map_found_prepend, ← directives]
    have whole := pass (c :: (splitLiteral c cs).1) _ _ ih
    rwa [List.cons_append, splitLiteral_append] at whole
  | case3 c cs quote sign qualified behind none' ih =>
    have named : directiveNamed? (cs.takeWhile isNameChar) (cs.dropWhile isNameChar) = none := none'
    have same : directives (c :: cs) = directives behind := by
      rw [directives, DirectiveScan.of, if_neg quote, if_pos sign]
      simp only [named, map_found_prepend]
      rfl
    have whole := pass (c :: qualified) _ _ ih
    rwa [List.cons_append, List.takeWhile_append_dropWhile, ← same] at whole
  | case4 c cs quote sign qualified behind d found' ih =>
    have named : directiveNamed? (cs.takeWhile isNameChar) (cs.dropWhile isNameChar) = some d :=
      found'
    have same : directives (c :: cs) = d :: directives (afterArguments behind) := by
      rw [directives, DirectiveScan.of, if_neg quote, if_pos sign]
      simp only [named]
      rfl
    have whole := found qualified behind d _ List.all_takeWhile found' ih
    rwa [List.takeWhile_append_dropWhile, ← same, ← beq_iff_eq.1 sign] at whole
  | case5 c cs quote sign ih =>
    rw [directives_cons (Bool.eq_false_iff.2 quote) (by simpa using sign)]
    exact pass [c] cs _ ih

/-- The directives of a text do not overlap. -/
theorem totalLength_raw_le (cs : List Char) :
    totalLength ((directives cs).map fun d => d.raw.toList) ≤ cs.length := by
  induction cs using directives_induction with
  | nil => exact Nat.le_refl 0
  | pass front rest ds ih =>
    rw [List.length_append]
    omega
  | found qualified behind d ds characters named ih =>
    have taken := length_raw named
    rw [List.map_cons, totalLength_cons, List.length_cons, List.length_append]
    omega

private theorem totalLength_flatMap_le (blocks : List (List Char)) :
    totalLength ((blocks.flatMap directives).map fun d => d.raw.toList) ≤ totalLength blocks := by
  induction blocks with
  | nil => exact Nat.le_refl 0
  | cons block blocks ih =>
    have first := totalLength_raw_le block
    rw [List.flatMap_cons, List.map_append, totalLength_append, totalLength_cons]
    omega

theorem length_joinWith_append {xs ys : List (List Char)} (h : xs ≠ []) (h' : ys ≠ []) :
    (joinWith [' '] (xs ++ ys)).length =
      (joinWith [' '] xs).length + 1 + (joinWith [' '] ys).length := by
  rw [joinWith_append [' '] h h', List.length_append, List.length_append, List.length_singleton]

private theorem length_joinWith_append_le (xs ys : List (List Char)) :
    (joinWith [' '] xs).length + (joinWith [' '] ys).length ≤ (joinWith [' '] (xs ++ ys)).length := by
  by_cases h : xs = []
  · simp [h]
  by_cases h' : ys = []
  · simp [h']
  rw [length_joinWith_append h h']
  omega

/-- The blocks that a walk finds are no longer than the lines that it walks over. -/
theorem totalLength_blocksAbove_le (pending blocks lines : List (List Char)) :
    totalLength (blocksAbove pending blocks lines) ≤
      totalLength blocks + (joinWith [' '] ((lines.map trim).reverse ++ pending)).length := by
  induction lines generalizing pending blocks with
  | nil =>
    rw [blocksAbove]
    exact Nat.le_add_right _ _
  | cons line above ih =>
    have lines : ((line :: above).map trim).reverse ++ pending =
        (above.map trim).reverse ++ (trim line :: pending) := by
      rw [List.map_cons, List.reverse_cons, List.append_assoc]
      rfl
    have room := length_joinWith_append_le (above.map trim).reverse (trim line :: pending)
    rw [lines, blocksAbove]
    dsimp only
    split
    · rename_i skipped
      rw [Bool.and_eq_true, List.isEmpty_iff] at skipped
      have above := ih pending blocks
      rw [skipped.1, List.append_nil] at above
      rw [skipped.1] at room ⊢
      omega
    · split
      · split
        · have above := ih [] (joinWith [' '] (trim line :: pending) :: blocks)
          rw [List.append_nil, totalLength_cons] at above
          omega
        · exact ih (trim line :: pending) blocks
      · split
        · exact Nat.le_add_right _ _
        · exact ih (trim line :: pending) blocks

/-- When the lines of a text are not kept for the lines above them, some of the text is lost. -/
theorem totalLength_blocksAbove_lt {lines : List (List Char)}
    (trimmed : ∀ line ∈ lines, trim line = line) (h : kept lines = false) {above : List (List Char)}
    (nonempty : above ≠ []) :
    totalLength (blocksAbove [] [] (lines.reverse ++ above)) <
      (joinWith [' '] ((above.map trim).reverse ++ lines)).length := by
  induction lines generalizing above with
  | nil => cases h
  | cons line below ih =>
    rw [List.forall_mem_cons] at trimmed
    have text : ((line :: above).map trim).reverse ++ below =
        (above.map trim).reverse ++ (line :: below) := by
      rw [List.map_cons, List.reverse_cons, List.append_assoc, trimmed.1]
      rfl
    have some' : (above.map trim).reverse ≠ [] := by simpa using nonempty
    have room := length_joinWith_append some' (List.cons_ne_nil line below)
    rw [List.reverse_cons, List.append_assoc, List.singleton_append]
    -- the walk comes from below: what is lost is lost there, or else in this line
    cases later : kept below with
    | false =>
      have lost := @ih trimmed.2 later (line :: above) (List.cons_ne_nil _ _)
      rwa [text] at lost
    | true =>
      rw [kept, later, Bool.true_and] at h
      rw [blocksAbove_kept trimmed.2 later, blocksAbove]
      dsimp only
      rw [trimmed.1]
      cases skipped : (below.isEmpty && (line.isEmpty || isCommentLine line)) with
      | true =>
        rw [Bool.and_eq_true, List.isEmpty_iff] at skipped
        have found := totalLength_blocksAbove_le [] [] above
        rw [List.append_nil, totalLength_nil] at found
        rw [if_pos rfl]
        rw [skipped.1] at room ⊢
        omega
      | false =>
        rw [skipped, Bool.not_false, Bool.true_and] at h
        rw [if_neg Bool.false_ne_true]
        cases sign : startsWith ['@'] line with
        | true =>
          rw [sign, if_pos rfl, decide_eq_false_iff_not] at h
          rw [if_pos rfl, if_pos (by omega)]
          have found := totalLength_blocksAbove_le [] [joinWith [' '] (line :: below)] above
          rw [List.append_nil, totalLength_cons, totalLength_nil] at found
          omega
        | false =>
          rw [sign, if_neg Bool.false_ne_true, decide_eq_false_iff_not] at h
          rw [if_neg Bool.false_ne_true, if_pos (by omega), totalLength_nil]
          omega

/-- A directive that is not contiguous loses some of its text. -/
theorem totalLength_blocksBelow_lt {w : Written} (h : ¬w.Contiguous) :
    totalLength (blocksBelow w.text) < (oneLine w.text).length := by
  have trimmed : ∀ line ∈ trimmedLines w.text, trim line = line :=
    fun line h => trim_of_mem_trimmedLines h
  obtain ⟨first, later, lines⟩ := trimmedLines_written w
  rw [Written.Contiguous, Bool.not_eq_true] at h
  rw [blocksBelow_eq, oneLine]
  rw [lines] at trimmed h ⊢
  rw [List.forall_mem_cons] at trimmed
  have lost := totalLength_blocksAbove_lt trimmed.2 h (List.cons_ne_nil ('@' :: first) [])
  rw [List.map_singleton, trimmed.1, List.reverse_singleton, List.singleton_append] at lost
  rwa [List.reverse_cons]

/-- No literal of a directive reaches over the end of a line. -/
def Written.EndsLiterals (w : Written) : Prop :=
  ∀ front rest, w.text = front ++ '\n' :: rest → (ParenSearch.run {} front).literal = none

/-- Only a literal has escaped characters. -/
theorem escaped_run {s : ParenSearch} (h : s.literal = none → s.escaped = false) (cs : List Char) :
    (s.run cs).literal = none → (s.run cs).escaped = false := by
  induction cs generalizing s with
  | nil => exact h
  | cons c cs ih =>
    refine ih ?_
    obtain ⟨depth, literal, escaped⟩ := s
    cases literal with
    | some quote =>
      cases escaped with
      | true => exact fun _ => rfl
      | false =>
        rw [ParenSearch.step]
        dsimp only
        split_ifs <;> simp
    | none =>
      obtain rfl : escaped = false := h rfl
      rw [ParenSearch.step]
      dsimp only
      split_ifs <;> simp

/-- The parenthesis before an argument list is open at each of its line breaks. -/
theorem depth_before_break {w : Written} (readable : w.Readable) {front rest : List Char}
    (split : w.text = front ++ '\n' :: rest) : 0 < (ParenSearch.run {} front).depth := by
  cases arguments : w.arguments with
  | none =>
    have member : '\n' ∈ '@' :: w.qualified := by
      rw [← text_of_no_arguments arguments, split]
      exact List.mem_append_right _ List.mem_cons_self
    exact absurd member (List.not_mem_cons_of_ne_of_not_mem (by decide)
      (not_mem_of_plain readable.characters (by decide)))
  | some found =>
    obtain ⟨space, inside⟩ := found
    obtain ⟨stays, -⟩ := enclosed_iff.1 (readable.enclosed space inside arguments)
    rw [text_of_arguments arguments] at split
    obtain ⟨read, more, rfl, rfl, -⟩ :=
      exists_of_mem_middle (lineFeed_not_mem_opening readable arguments) (by decide) split
    rw [ParenSearch.staysOpen_append, Bool.and_eq_true] at stays
    rw [ParenSearch.run_append, run_opening readable arguments]
    exact ParenSearch.depth_pos stays.1 Int.one_pos

/-- The lines of a directive behind a line break close a parenthesis that is opened above them. -/
theorem parenBalance_below {w : Written} (readable : w.Readable) {front rest : List Char}
    (split : w.text = front ++ '\n' :: rest)
    (closed : (ParenSearch.run {} front).literal = none) : parenBalance rest < 0 := by
  have deeper := depth_before_break readable split
  have unescaped := escaped_run (fun _ => rfl) front closed
  have whole := parenBalance_written readable
  have feed (s : ParenSearch) (closed : s.literal = none) (unescaped : s.escaped = false) :
      s.step '\n' = ⟨s.depth, none, false⟩ := by
    obtain ⟨depth, literal, escaped⟩ := s
    obtain rfl := closed
    obtain rfl := unescaped
    rfl
  rw [ParenSearch.parenBalance_eq, split, ParenSearch.run_append, ParenSearch.run_cons,
    feed _ closed unescaped, ParenSearch.depth_run] at whole
  omega

/-- Lines of a text are the lines of a part of it. -/
theorem exists_of_trimmedLines_append {cs : List Char} {xs ys : List (List Char)}
    (h : trimmedLines cs = xs ++ ys) (before : xs ≠ []) (behind : ys ≠ []) :
    ∃ front rest, cs = front ++ '\n' :: rest ∧ trimmedLines rest = ys := by
  induction cs using lines_induction generalizing xs with
  | line cs line =>
    have count := congrArg List.length h
    rw [trimmedLines_line line, List.length_append, List.length_singleton] at count
    have some' := List.length_pos_iff.2 before
    have some'' := List.length_pos_iff.2 behind
    omega
  | more l cs line ih =>
    obtain ⟨x, xs, rfl⟩ := List.exists_cons_of_ne_nil before
    rw [trimmedLines_lines, trimmedLines_line line, List.singleton_append, List.cons_append,
      List.cons.injEq] at h
    by_cases last : xs = []
    · exact ⟨l, cs, rfl, by rw [h.2, last, List.nil_append]⟩
    · obtain ⟨front, rest, rfl, lines⟩ := ih h.2 last
      exact ⟨l ++ '\n' :: front, rest, by simp, lines⟩

/-- Lines that close a parenthesis opened above them are kept when none of them begins with an at
sign and the last one is no comment. -/
theorem kept_iff {lines : List (List Char)}
    (closes : ∀ xs ys, lines = xs ++ ys → ys ≠ [] → parenBalance (joinWith [' '] ys) < 0) :
    kept lines = true ↔ (∀ line ∈ lines, startsWith ['@'] line = false) ∧
      ∀ line, lines.getLast? = some line → (line.isEmpty || isCommentLine line) = false := by
  induction lines with
  | nil => simp [kept]
  | cons line below ih =>
    have here := closes [] (line :: below) rfl (List.cons_ne_nil _ _)
    have later := ih fun xs ys split => closes (line :: xs) ys (by rw [split]; rfl)
    have last : (∀ l, (line :: below).getLast? = some l → (l.isEmpty || isCommentLine l) = false) ↔
        (∀ l, below.getLast? = some l → (l.isEmpty || isCommentLine l) = false) ∧
          (below.isEmpty && (line.isEmpty || isCommentLine line)) = false := by
      cases below with
      | nil => simp
      | cons next below => simp [List.getLast?_cons_cons]
    have sign : (if startsWith ['@'] line then decide (0 < parenBalance (joinWith [' '] (line :: below)))
        else decide (parenBalance (joinWith [' '] (line :: below)) < 0)) = true ↔
          startsWith ['@'] line = false := by
      cases startsWith ['@'] line with
      | true => simp; omega
      | false => simpa using here
    rw [kept, Bool.and_eq_true, Bool.and_eq_true, later, Bool.not_eq_true', last, sign,
      List.forall_mem_cons]
    tauto

private theorem isEmpty_last_line {w : Written} (readable : w.Readable) {line : List Char}
    (last : (trimmedLines w.text).tail.getLast? = some line) : line.isEmpty = false := by
  obtain ⟨first, later, lines⟩ := trimmedLines_written w
  obtain ⟨v, readable', text, -⟩ := exists_oneLine readable
  obtain ⟨c, ends, blank⟩ := getLast?_written readable'
  rw [lines, List.tail_cons] at last
  obtain ⟨front, rfl⟩ := List.getLast?_eq_some_iff.1 last
  rw [text, oneLine, lines, ← List.cons_append, joinWith_append [' '] (List.cons_ne_nil _ _)
    (List.cons_ne_nil _ _), joinWith_singleton] at ends
  cases line with
  | nil =>
    rw [List.append_nil, List.getLast?_concat, Option.some.injEq] at ends
    rw [← ends] at blank
    cases blank
  | cons c line => rfl

/-- A directive whose literals end on their lines is contiguous when no line of it but the first one
begins with an at sign, and the last one is no comment. -/
theorem contiguous_iff {w : Written} (readable : w.Readable) (ends : w.EndsLiterals) :
    w.Contiguous ↔ (∀ line ∈ (trimmedLines w.text).tail, startsWith ['@'] line = false) ∧
      ∀ line, (trimmedLines w.text).tail.getLast? = some line → isCommentLine line = false := by
  obtain ⟨first, later, lines⟩ := trimmedLines_written w
  rw [Written.Contiguous, kept_iff]
  · refine and_congr_right fun _ => forall_congr' fun line => imp_congr_right fun last => ?_
    rw [isEmpty_last_line readable last, Bool.false_or]
  · intro xs ys split nonempty
    rw [lines, List.tail_cons] at split
    rw [split, ← List.cons_append] at lines
    obtain ⟨front, rest, text, same⟩ :=
      exists_of_trimmedLines_append lines (List.cons_ne_nil _ _) nonempty
    rw [← same, ← oneLine, parenBalance_oneLine]
    exact parenBalance_below readable text (ends front rest text)

/-- The directives of a declaration are those above the text before it. -/
theorem directivesAt?_append (before declaration : List Char) :
    directivesAt? (String.ofList (before ++ declaration)) (byteLength before) =
      some (directivesAbove before) := by
  rw [directivesAt?, String.toList_ofList, cutAtByte_byteLength]
  dsimp only
  rw [beq_self_eq_true, Bool.or_true, if_pos rfl]

def Block.alone (w : Written) : Block := ⟨[], [.directive [] w], []⟩

private theorem wellFormed_alone {w : Written} (readable : w.Readable) :
    (Block.alone w).WellFormed where
  above := nofun
  entries := List.forall_mem_singleton.2 (.directive rfl readable)
  indent := rfl

/-- A directive that is collected when it stands alone is contiguous: otherwise the directives that
are found are shorter than it. -/
theorem contiguous_of_alone {w : Written} (readable : w.Readable)
    (found : directivesAbove (Block.alone w).text = [w.spread]) : w.Contiguous := by
  by_contra lost
  have text : (Block.alone w).text = (w.text ++ w.gap) ++ '\n' :: [] := by
    change joinWith ['\n'] [w.text ++ w.gap, []] = _
    rw [joinWith_cons_cons, joinWith_singleton, List.append_assoc]
    rfl
  have lines : blocksBelow (w.text ++ w.gap) = blocksBelow w.text := by
    rw [blocksBelow_eq, blocksBelow_eq, ← @trimmedLines_between [] w.gap rfl readable.gap w.text]
    rfl
  have empty : trim [] = [] := rfl
  rw [text, directivesAbove_line List.not_mem_nil, empty, directives_nil, List.append_nil,
    lines] at found
  have bound := totalLength_flatMap_le (blocksBelow w.text)
  have short := totalLength_blocksBelow_lt lost
  have whole : totalLength ([w.spread].map fun d => d.raw.toList) = (oneLine w.text).length := by
    simp [Written.spread]
  rw [found] at bound
  omega

def writtenCall (name inside : String) : Written := ⟨name.toList, some ([], inside.toList), []⟩

theorem readable_writtenCall {name inside : String} (characters : name.toList.all isNameChar = true)
    (named : lastPiece '.' name.toList ≠ []) (declares : lastPiece '.' name.toList ≠ "interface".toList)
    (enclosed : Enclosed inside.toList) : (writtenCall name inside).Readable where
  characters := characters
  named := named
  declares := declares
  space := by
    rintro _ _ ⟨⟩
    rfl
  enclosed := by
    rintro _ _ ⟨⟩
    exact enclosed
  gap := rfl

/-- A mapping over four lines and a directive with another one in it, with comments. -/
def mappingBlock : Block where
  above := ["class UserController \x7b".toList]
  entries := [
    .filler [],
    .filler "  /** The users. */".toList,
    .directive "  ".toList
      (writtenCall "GetMapping" "\n    value = \"/users\",\n    produces = \"text/csv\"\n  "),
    .filler "  // may be slow (see the log".toList,
    .directive "  ".toList (writtenCall "ApiResponses" "@ApiResponse(code = 200),\n    200")]
  indent := "  ".toList

private theorem wellFormed_mappingBlock : mappingBlock.WellFormed where
  above := by
    rintro _ ⟨⟩
    decide +kernel
  entries := by
    simp only [mappingBlock, List.forall_mem_cons, List.not_mem_nil, false_implies, implies_true,
      and_true]
    exact ⟨.filler (by decide) (by decide), .filler (by decide) (by decide),
      .directive (by decide) (readable_writtenCall (by decide) (by decide) (by decide) (by decide)),
      .filler (by decide) (by decide),
      .directive (by decide) (readable_writtenCall (by decide) (by decide) (by decide) (by decide))⟩
  indent := rfl

/-- The directives above the end of every block are found exactly when they are contiguous. -/
theorem directivesAbove_block_iff {ws : List Written} (readable : ∀ w ∈ ws, w.Readable) :
    (∀ b : Block, b.WellFormed → b.directives ⊆ ws →
      directivesAbove b.text = b.directives.map Written.spread) ↔ ∀ w ∈ ws, w.Contiguous := by
  constructor
  · intro collected w hw
    exact contiguous_of_alone (readable w hw) (collected (Block.alone w)
      (wellFormed_alone (readable w hw)) (List.cons_subset.2 ⟨hw, List.nil_subset _⟩))
  · intro contiguous b wf sub
    exact directivesAbove_block wf fun w hw => contiguous w (sub hw)

/-- Directives are collected from every block of them exactly when they are contiguous. -/
theorem directivesAt?_block_iff {ws : List Written} (readable : ∀ w ∈ ws, w.Readable) :
    (∀ b : Block, b.WellFormed → b.directives ⊆ ws → ∀ declaration,
      directivesAt? (String.ofList (b.text ++ declaration)) (byteLength b.text) =
        some (b.directives.map Written.spread)) ↔
      ∀ w ∈ ws, w.Contiguous := by
  simp only [directivesAt?_append, Option.some.injEq, forall_const]
  exact directivesAbove_block_iff readable

/-- Directives whose literals end on their lines are collected from every block of them exactly when
none of their lines but the first ones begins with an at sign, and no last line is a comment. -/
theorem directivesAt?_block_lines_iff {ws : List Written} (readable : ∀ w ∈ ws, w.Readable)
    (ends : ∀ w ∈ ws, w.EndsLiterals) :
    (∀ b : Block, b.WellFormed → b.directives ⊆ ws → ∀ declaration,
      directivesAt? (String.ofList (b.text ++ declaration)) (byteLength b.text) =
        some (b.directives.map Written.spread)) ↔
      ∀ w ∈ ws, (∀ line ∈ (trimmedLines w.text).tail, startsWith ['@'] line = false) ∧
        ∀ line, (trimmedLines w.text).tail.getLast? = some line → isCommentLine line = false := by
  simp only [directivesAt?_append, Option.some.injEq, forall_const]
  rw [directivesAbove_block_iff readable]
  exact forall₂_congr fun w hw => contiguous_iff (readable w hw) (ends w hw)

theorem directivesAt?_mappingBlock :
    let before := mappingBlock.text
    (∀ w ∈ mappingBlock.directives, w.Readable) ∧ mappingBlock.WellFormed ∧
      ∀ declaration, directivesAt? (String.ofList (before ++ declaration)) (byteLength before) =
        some [⟨"GetMapping", some "value = \"/users\", produces = \"text/csv\"",
            "@GetMapping( value = \"/users\", produces = \"text/csv\" )"⟩,
          ⟨"ApiResponses", some "@ApiResponse(code = 200), 200",
            "@ApiResponses(@ApiResponse(code = 200), 200)"⟩] := by
  have readable := readable_of_wellFormed wellFormed_mappingBlock
  have contiguous : ∀ w ∈ mappingBlock.directives, w.Contiguous := by decide +kernel
  refine ⟨readable, wellFormed_mappingBlock, fun declaration => ?_⟩
  rw [(directivesAt?_block_iff readable).2 contiguous mappingBlock wellFormed_mappingBlock
    (List.Subset.refl _) declaration]
  decide +kernel

/-- A mapping above a directive that has another one at the start of a line. -/
def responsesBlock : Block where
  above := []
  entries := [.directive [] (writtenCall "GetMapping" "\"/users\""),
    .directive [] (writtenCall "ApiResponses" "\x7b\n  @ApiResponse(code = \"200\")\n\x7d")]
  indent := []

theorem directivesAt?_ne_responsesBlock : responsesBlock.WellFormed ∧
    responsesBlock.text = ("@GetMapping(\"/users\")\n@ApiResponses(\x7b\n" ++
      "  @ApiResponse(code = \"200\")\n\x7d)\n").toList ∧
    responsesBlock.directives.map (fun w => w.spread.name) = ["GetMapping", "ApiResponses"] ∧
    (directivesAt? (String.ofList (responsesBlock.text ++ "List<User> list();".toList))
      (byteLength responsesBlock.text)).map (·.map (·.name)) = some ["ApiResponse"] := by
  refine ⟨⟨nofun, ?_, rfl⟩, by decide +kernel, by decide +kernel, by decide +kernel⟩
  simp only [responsesBlock, List.forall_mem_cons, List.not_mem_nil, false_implies, implies_true,
    and_true]
  exact ⟨.directive rfl (readable_writtenCall (by decide) (by decide) (by decide) (by decide)),
    .directive rfl (readable_writtenCall (by decide) (by decide) (by decide) (by decide))⟩

end ApiCollection.Java
