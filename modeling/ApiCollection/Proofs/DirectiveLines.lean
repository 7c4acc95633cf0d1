import ApiCollection.Proofs.DirectiveBlock
import ApiCollection.Proofs.OneLine

/-!
# Directives over several lines

A block of directives above a declaration, each of them on lines of its own, with blank lines and
comments between them. The walk upwards joins the lines of a directive again when none of them but
the first one looks as if it began a directive, or ended one that is complete.
-/

namespace ApiCollection.Java

open Text

/-- The directive that is written over several lines: its trimmed lines are joined by blanks. -/
def Written.spread (w : Written) : Directive where
  name := String.ofList (lastPiece '.' w.qualified)
  args := w.arguments.map fun (_, inside) => String.ofList (trim (oneLine inside))
  raw := String.ofList (oneLine w.text)

/-- Lines of a block: a blank line or a comment, or a directive with the blanks in front of it. -/
inductive Entry where
  | filler (line : List Char)
  | directive (indent : List Char) (w : Written)

namespace Entry

def text : Entry → List Char
  | filler line => line
  | directive indent w => indent ++ (w.text ++ w.gap)

def directive? : Entry → Option Written
  | filler _ => none
  | directive _ w => some w

end Entry

/-- A block of directives with what stands above it and the blanks before the declaration. -/
structure Block where
  above : List (List Char)
  entries : List Entry
  indent : List Char

namespace Block

def text (b : Block) : List Char :=
  joinWith ['\n'] (b.above ++ b.entries.map Entry.text ++ [b.indent])

def directives (b : Block) : List Written := b.entries.filterMap Entry.directive?

end Block

/-- Whether a line is code that is no directive and closes no parenthesis of the lines above it. -/
def isCodeLine (line : List Char) : Bool :=
  !line.isEmpty && !isCommentLine line && !startsWith ['@'] line && decide (0 ≤ parenBalance line)

inductive Entry.WellFormed : Entry → Prop
  | filler {line : List Char} (oneLine : '\n' ∉ line)
      (skipped : ((trim line).isEmpty || isCommentLine (trim line)) = true) :
      WellFormed (.filler line)
  | directive {indent : List Char} {w : Written} (blank : indent.all isTabOrSpace = true)
      (readable : w.Readable) : WellFormed (.directive indent w)

/-- A block is well-formed when its entries are, and the line above it is code if there is one. -/
structure Block.WellFormed (b : Block) : Prop where
  above : ∀ line, b.above.getLast? = some line → '\n' ∉ line ∧ isCodeLine (trim line) = true
  entries : ∀ e ∈ b.entries, e.WellFormed
  indent : b.indent.all isTabOrSpace = true

/-- Whether the walk upwards keeps all of some lines at the end of a directive for the lines above
them: the last one is no comment, a line without an at sign closes more parentheses than it opens,
together with those below it, and a line with one opens more of them. -/
def kept : List (List Char) → Bool
  | [] => true
  | line :: below =>
    let balance := parenBalance (joinWith [' '] (line :: below))
    kept below && !(below.isEmpty && (line.isEmpty || isCommentLine line)) &&
      if startsWith ['@'] line then 0 < balance else balance < 0

/-- A directive is contiguous when its later lines are kept until its first one is reached. -/
def Written.Contiguous (w : Written) : Prop := kept (trimmedLines w.text).tail = true

instance (w : Written) : Decidable w.Contiguous := inferInstanceAs (Decidable (_ = true))

theorem run_plain {s : ParenSearch} (closed : s.literal = none) {cs : List Char}
    (plain : ∀ c ∈ cs, c ∉ ['"', '\'', '(', ')']) : s.run cs = s := by
  induction cs with
  | nil => rfl
  | cons c cs ih =>
    rw [List.forall_mem_cons] at plain
    have same : s.step c = s := by
      have other := plain.1
      simp only [List.mem_cons, List.not_mem_nil, or_false, not_or] at other
      rw [ParenSearch.step, closed]
      simp [other]
    rw [ParenSearch.run_cons, same, ih plain.2]

theorem plain_of_isNameChar {c : Char} (h : isNameChar c = true) : c ∉ ['"', '\'', '(', ')'] := by
  intro member
  simp only [List.mem_cons, List.not_mem_nil, or_false] at member
  obtain rfl | rfl | rfl | rfl := member <;> exact absurd h (by decide)

private theorem plain_of_isTabOrSpace {c : Char} (h : isTabOrSpace c = true) :
    c ∉ ['"', '\'', '(', ')'] := by
  obtain rfl | rfl := isTabOrSpace_cases h <;> decide

theorem not_mem_of_plain {cs : List Char} {p : Char → Bool} (h : cs.all p = true)
    (other : p '\n' = false) : '\n' ∉ cs := by
  intro member
  rw [List.all_eq_true.1 h _ member] at other
  cases other

def Written.opening (w : Written) (space : List Char) : List Char :=
  '@' :: (w.qualified ++ (space ++ ['(']))

section Arguments

variable {w : Written} (readable : w.Readable) {space inside : List Char}
  (arguments : w.arguments = some (space, inside))

include arguments

theorem text_of_arguments : w.text = w.opening space ++ (inside ++ [')']) := by
  simp [Written.text, Written.argumentText, Written.opening, arguments]

include readable

theorem lineFeed_not_mem_opening : '\n' ∉ w.opening space := by
  have name : '\n' ∉ w.qualified := not_mem_of_plain readable.characters (by decide)
  have blanks : '\n' ∉ space := not_mem_of_plain (readable.space space inside arguments) (by decide)
  simp [Written.opening, name, blanks]

theorem run_opening : ParenSearch.run {} (w.opening space) = { depth := 1 } := by
  have plain : ∀ c ∈ '@' :: (w.qualified ++ space), c ∉ ['"', '\'', '(', ')'] := by
    rw [List.forall_mem_cons, List.forall_mem_append]
    exact ⟨by decide,
      fun c hc => plain_of_isNameChar (List.all_eq_true.1 readable.characters c hc),
      fun c hc => plain_of_isTabOrSpace
        (List.all_eq_true.1 (readable.space space inside arguments) c hc)⟩
  have split : w.opening space = '@' :: (w.qualified ++ space) ++ ['('] := by
    simp [Written.opening]
  rw [split, ParenSearch.run_append, run_plain rfl plain]
  rfl

end Arguments

theorem text_of_no_arguments {w : Written} (none' : w.arguments = none) :
    w.text = '@' :: w.qualified := by
  simp [Written.text, Written.argumentText, none']

/-- A readable directive closes the parentheses that it opens. -/
theorem parenBalance_written {w : Written} (readable : w.Readable) : parenBalance w.text = 0 := by
  rw [ParenSearch.parenBalance_eq]
  cases arguments : w.arguments with
  | none =>
    have plain : ∀ c ∈ '@' :: w.qualified, c ∉ ['"', '\'', '(', ')'] := by
      rw [List.forall_mem_cons]
      exact ⟨by decide, fun c hc => plain_of_isNameChar (List.all_eq_true.1 readable.characters c hc)⟩
    rw [text_of_no_arguments arguments, run_plain rfl plain]
  | some found =>
    obtain ⟨space, inside⟩ := found
    obtain ⟨-, closes⟩ := enclosed_iff.1 (readable.enclosed space inside arguments)
    obtain ⟨closed, -, one⟩ := ParenSearch.of_closes closes
    rw [text_of_arguments arguments, ParenSearch.run_append, run_opening readable arguments,
      ParenSearch.run_append, ParenSearch.run_cons, (ParenSearch.step_paren closed).2,
      ParenSearch.run_nil]
    change _ + -1 = (0 : Int)
    rw [one]
    rfl

/-- An argument list stays enclosed when its lines are joined. -/
theorem enclosed_oneLine {inside front behind : List Char} (enclosed : Enclosed inside)
    (blank : front.all isBlank = true) (blank' : behind.all isBlank = true) :
    Enclosed (front ++ (oneLine inside ++ behind)) := by
  have legal : ParenSearch.Legal { depth := 1 } := rfl
  rw [enclosed_iff] at enclosed ⊢
  obtain ⟨stays, closes⟩ := enclosed
  obtain ⟨same, same'⟩ := ParenSearch.run_oneLine legal inside
  have first : ParenSearch.run { depth := 1 } front = { depth := 1 } :=
    ParenSearch.run_pause_blanks legal blank
  have last := ParenSearch.pause_run_blanks (ParenSearch.legal_run legal (oneLine inside)) blank'
  constructor
  · rw [ParenSearch.staysOpen_append, ParenSearch.staysOpen_append,
      ParenSearch.staysOpen_blanks _ blank, ParenSearch.staysOpen_blanks _ blank', first,
      Bool.true_and, Bool.and_true]
    exact same'.trans stays
  · rw [ParenSearch.run_append, ParenSearch.run_append, first, ← ParenSearch.closes_pause, last]
    exact (congrArg (ParenSearch.closes · ')') same).trans closes

/-- On one line, a readable directive is another one with the same name. -/
theorem exists_oneLine {w : Written} (readable : w.Readable) :
    ∃ v : Written, v.Readable ∧ v.text = oneLine w.text ∧ v.directive = w.spread := by
  cases arguments : w.arguments with
  | none =>
    obtain ⟨d, last, blank⟩ := getLast?_written readable
    have line : '\n' ∉ w.text := by
      rw [text_of_no_arguments arguments]
      exact List.not_mem_cons_of_ne_of_not_mem (by decide)
        (not_mem_of_plain readable.characters (by decide))
    have same : oneLine w.text = w.text := by
      have alone := @trim_between [] w.text [] '@' d rfl rfl (by decide) last blank rfl
      rw [List.append_nil, List.nil_append] at alone
      rw [oneLine_line line, alone]
    refine ⟨w, readable, same.symm, ?_⟩
    rw [Written.directive, Written.spread, same, arguments]
    rfl
  | some found =>
    obtain ⟨space, inside⟩ := found
    have last : (w.opening space).getLast? = some '(' := by
      rw [Written.opening, ← List.append_assoc, ← List.cons_append, List.getLast?_concat]
    obtain ⟨blanks, blank, same⟩ := oneLine_front (lineFeed_not_mem_opening readable arguments) rfl
      (by decide) last (by decide) (inside ++ [')'])
    obtain ⟨blanks', blank', same'⟩ := @oneLine_behind [')'] ')' ')' (by decide) rfl (by decide)
      rfl (by decide) inside
    have joined : Enclosed (blanks ++ (oneLine inside ++ blanks')) :=
      enclosed_oneLine (readable.enclosed space inside arguments) blank blank'
    have written : '@' :: (w.qualified ++ (space ++ '(' :: ((blanks ++ (oneLine inside ++ blanks')) ++
        [')']))) = oneLine w.text := by
      rw [text_of_arguments arguments, same, same']
      simp [Written.opening]
    refine ⟨⟨w.qualified, some (space, blanks ++ (oneLine inside ++ blanks')), w.gap⟩,
      ⟨readable.characters, readable.named, readable.declares, ?_, ?_, readable.gap⟩, written, ?_⟩
    · rintro _ _ ⟨⟩
      exact readable.space space inside arguments
    · rintro _ _ ⟨⟩
      exact joined
    · have trimmed : trim (blanks ++ (oneLine inside ++ blanks')) = trim (oneLine inside) := by
        rw [trim_blanks_append blank, trim_append_blanks blank']
      rw [Written.spread, arguments, ← written]
      exact congrArg (fun args => Directive.mk _ (some (String.ofList args)) _) trimmed

/-- A directive that is joined to one line is read as the directive that was written. -/
theorem directives_oneLine {w : Written} (readable : w.Readable) :
    directives (oneLine w.text) = [w.spread] := by
  obtain ⟨v, readable', text, same⟩ := exists_oneLine readable
  have alone := @directives_written v readable'.legible []
    fun _ => ⟨rfl, (Option.some_ne_none _).symm⟩
  rw [List.append_nil, directives_nil, text, same] at alone
  exact alone

/-- The walk looks at trimmed lines only. -/
theorem blocksAbove_trim (pending blocks lines : List (List Char)) :
    blocksAbove pending blocks (lines.map trim) = blocksAbove pending blocks lines := by
  induction lines generalizing pending blocks with
  | nil => rfl
  | cons line above ih =>
    rw [List.map_cons, blocksAbove, blocksAbove]
    simp only [trim_trim, ih]

theorem blocksBelow_eq (cs : List Char) :
    blocksBelow cs = blocksAbove [] [] (trimmedLines cs).reverse := by
  have same : (trimmedLines cs).reverse =
      ((splitAtChar '\n' cs).map withoutReturn).reverse.map trim := by
    rw [List.map_reverse, List.map_map, trimmedLines]
    congr 1
    exact List.map_congr_left fun line _ => (trim_withoutReturn line).symm
  rw [same, blocksAbove_trim]
  rfl

/-- Lines that are kept wait for the lines above them. -/
theorem blocksAbove_kept {lines : List (List Char)} (trimmed : ∀ line ∈ lines, trim line = line)
    (h : kept lines = true) (blocks above : List (List Char)) :
    blocksAbove [] blocks (lines.reverse ++ above) = blocksAbove lines blocks above := by
  induction lines generalizing above with
  | nil => rfl
  | cons line below ih =>
    rw [List.forall_mem_cons] at trimmed
    rw [kept, Bool.and_eq_true, Bool.and_eq_true, Bool.not_eq_true'] at h
    obtain ⟨⟨later, waits⟩, balance⟩ := h
    rw [List.reverse_cons, List.append_assoc, List.singleton_append, ih trimmed.2 later, blocksAbove]
    dsimp only
    rw [trimmed.1, waits, if_neg Bool.false_ne_true]
    cases sign : startsWith ['@'] line with
    | true =>
      rw [sign, if_pos rfl, decide_eq_true_eq] at balance
      rw [if_pos rfl, if_neg (by omega)]
    | false =>
      rw [sign, if_neg Bool.false_ne_true, decide_eq_true_eq] at balance
      rw [if_neg Bool.false_ne_true, if_neg (by omega)]

theorem trim_of_mem_trimmedLines {cs line : List Char} (h : line ∈ trimmedLines cs) :
    trim line = line := by
  obtain ⟨raw, -, rfl⟩ := List.mem_map.1 h
  exact trim_trim raw

/-- The first line of a directive begins with its sign. -/
theorem trimmedLines_written (w : Written) :
    ∃ first later, trimmedLines w.text = ('@' :: first) :: later := by
  obtain ⟨piece, pieces, -, split⟩ := @splitWhere_cons_of_neg (· == '\n') '@' (by decide)
    (w.qualified ++ w.argumentText)
  refine ⟨trimEnd piece, pieces.map trim, ?_⟩
  have blank : ('@' :: piece).head?.any isBlank = false := (by decide : isBlank '@' = false)
  have first : trim ('@' :: piece) = '@' :: trimEnd piece := by
    rw [trim, trimStart_of_head? blank]
    exact @trimEnd_append ['@'] '@' rfl (by decide) piece
  rw [trimmedLines, splitAtChar, Written.text, split, List.map_cons, first]

private theorem isCommentLine_written {w : Written} (readable : w.Readable) :
    isCommentLine w.text = false := by
  have sign : w.text.head? = some '@' := rfl
  have ending : endsWith "*/".toList w.text = false := by
    rw [endsWith, Option.isSome_eq_false_iff, Option.isNone_iff_eq_none,
      Option.eq_none_iff_forall_ne_some]
    intro front found
    have last := congrArg List.getLast? (before?_eq_some_iff.1 found)
    rw [List.getLast?_append] at last
    cases arguments : w.arguments with
    | none =>
      have member : '/' ∈ '@' :: w.qualified :=
        text_of_no_arguments arguments ▸ List.mem_of_getLast? last
      have name : '/' ∈ w.qualified := by simpa using member
      exact absurd (List.all_eq_true.1 readable.characters _ name) (by decide)
    | some found =>
      rw [text_of_arguments arguments, ← List.append_assoc, List.getLast?_concat] at last
      have same : some ')' = some '/' := last
      exact absurd (Option.some.inj same) (by decide)
  have comment : startsWith "//".toList w.text = false :=
    startsWith_of_head? sign (by decide) ['/']
  have opening : startsWith "/*".toList w.text = false :=
    startsWith_of_head? sign (by decide) ['*']
  rw [isCommentLine, comment, opening, startsWith_of_head? sign (by decide), ending]
  rfl

/-- A contiguous directive is joined to one block. -/
theorem blocksAbove_directive {w : Written} (readable : w.Readable) (contiguous : w.Contiguous)
    (blocks above : List (List Char)) :
    blocksAbove [] blocks ((trimmedLines w.text).reverse ++ above) =
      blocksAbove [] (oneLine w.text :: blocks) above := by
  have trimmed : ∀ line ∈ trimmedLines w.text, trim line = line :=
    fun line h => trim_of_mem_trimmedLines h
  have balance : parenBalance (oneLine w.text) = 0 := by
    rw [parenBalance_oneLine, parenBalance_written readable]
  have comment : isCommentLine (oneLine w.text) = false := by
    obtain ⟨v, readable', text, -⟩ := exists_oneLine readable
    rw [← text]
    exact isCommentLine_written readable'
  obtain ⟨first, later, lines⟩ := trimmedLines_written w
  rw [Written.Contiguous] at contiguous
  rw [oneLine] at balance comment ⊢
  rw [lines] at trimmed contiguous balance comment ⊢
  rw [List.forall_mem_cons] at trimmed
  have waits : (later.isEmpty && (('@' :: first).isEmpty || isCommentLine ('@' :: first))) = false := by
    cases later with
    | nil =>
      rw [joinWith_singleton] at comment
      rw [comment]
      rfl
    | cons line below => rfl
  rw [List.reverse_cons, List.append_assoc, List.singleton_append,
    blocksAbove_kept trimmed.2 contiguous, blocksAbove]
  dsimp only
  rw [trimmed.1, waits, if_neg Bool.false_ne_true, @startsWith_singleton '@' '@' ('@' :: first) rfl,
    if_pos (beq_self_eq_true '@'), balance, if_pos (Int.le_refl 0)]

private theorem blocksAbove_filler {line : List Char}
    (skipped : ((trim line).isEmpty || isCommentLine (trim line)) = true)
    (blocks above : List (List Char)) :
    blocksAbove [] blocks (trim line :: above) = blocksAbove [] blocks above := by
  rw [blocksAbove]
  dsimp only
  rw [trim_trim, skipped]
  rfl

/-- The walk over the entries of a block finds its directives. -/
theorem blocksAbove_entries {entries : List Entry} (wf : ∀ e ∈ entries, e.WellFormed)
    (contiguous : ∀ w ∈ entries.filterMap Entry.directive?, w.Contiguous)
    (blocks above : List (List Char)) :
    blocksAbove [] blocks ((entries.flatMap fun e => trimmedLines e.text).reverse ++ above) =
      blocksAbove [] ((entries.filterMap Entry.directive?).map (fun w => oneLine w.text) ++ blocks)
        above := by
  induction entries generalizing above with
  | nil => rfl
  | cons e entries ih =>
    rw [List.forall_mem_cons] at wf
    rw [List.flatMap_cons, List.reverse_append, List.append_assoc]
    cases wf.1 with
    | @filler line oneLine skipped =>
      rw [ih wf.2 contiguous, Entry.text, trimmedLines_line oneLine]
      exact blocksAbove_filler skipped _ above
    | @directive indent w blank readable =>
      have each : ∀ v ∈ w :: entries.filterMap Entry.directive?, v.Contiguous := contiguous
      rw [List.forall_mem_cons] at each
      rw [ih wf.2 each.2, Entry.text, trimmedLines_between blank readable.gap,
        blocksAbove_directive readable each.1]
      rfl

/-- A code line, or the start of the text, ends the walk. -/
theorem blocksAbove_code {lines : List (List Char)}
    (code : ∀ line, lines.getLast? = some line → '\n' ∉ line ∧ isCodeLine (trim line) = true)
    (blocks : List (List Char)) :
    blocksAbove [] blocks (lines.flatMap trimmedLines).reverse = blocks := by
  obtain rfl | ⟨front, line, rfl⟩ := List.eq_nil_or_concat lines
  · rfl
  rw [List.concat_eq_append] at code ⊢
  obtain ⟨oneLine, stops⟩ := code line List.getLast?_concat
  rw [isCodeLine, Bool.and_eq_true, Bool.and_eq_true, Bool.and_eq_true, Bool.not_eq_true',
    Bool.not_eq_true', Bool.not_eq_true', decide_eq_true_eq] at stops
  obtain ⟨⟨⟨nonempty, comment⟩, sign⟩, balance⟩ := stops
  rw [List.flatMap_append, List.flatMap_singleton, trimmedLines_line oneLine, List.reverse_append,
    List.reverse_singleton, List.singleton_append, blocksAbove]
  dsimp only
  rw [trim_trim, nonempty, comment, sign, joinWith_singleton, if_pos balance]
  rfl

theorem readable_of_wellFormed {b : Block} (wf : b.WellFormed) :
    ∀ w ∈ b.directives, w.Readable := by
  intro w hw
  obtain ⟨e, he, found⟩ := List.mem_filterMap.1 hw
  cases wf.entries e he with
  | filler oneLine skipped => cases found
  | directive blank readable =>
    cases found
    exact readable

/-- The walk over a block of contiguous directives finds what was written. -/
theorem directivesAbove_block {b : Block} (wf : b.WellFormed)
    (contiguous : ∀ w ∈ b.directives, w.Contiguous) :
    directivesAbove b.text = b.directives.map Written.spread := by
  have indent : '\n' ∉ b.indent := not_mem_of_plain wf.indent (by decide)
  have own : trim b.indent = [] := trim_append_blanks (all_isBlank wf.indent) []
  by_cases first : b.above ++ b.entries.map Entry.text = []
  · obtain ⟨-, none'⟩ := List.append_eq_nil_iff.1 first
    have text : b.text = b.indent := by
      rw [Block.text, first, List.nil_append, joinWith_singleton]
    rw [text, directivesAbove_first indent, own, directives_nil, Block.directives,
      List.map_eq_nil_iff.1 none']
    rfl
  · have text : b.text =
        joinWith ['\n'] (b.above ++ b.entries.map Entry.text) ++ '\n' :: b.indent := by
      rw [Block.text, joinWith_append _ first (List.cons_ne_nil _ _), joinWith_singleton,
        List.append_assoc]
      rfl
    have walk : blocksBelow (joinWith ['\n'] (b.above ++ b.entries.map Entry.text)) =
        b.directives.map fun w => oneLine w.text := by
      rw [blocksBelow_eq, trimmedLines_joinWith first, List.flatMap_append, List.reverse_append,
        List.flatMap_map, blocksAbove_entries wf.entries contiguous, blocksAbove_code wf.above,
        List.append_nil]
      rfl
    rw [text, directivesAbove_line indent, own, directives_nil, walk, List.append_nil,
      List.flatMap_map, ← List.flatMap_pure_eq_map]
    exact List.flatMap_congr fun w hw => directives_oneLine (readable_of_wellFormed wf w hw)

end ApiCollection.Java
