import ApiCollection.Proofs.DeclaredMethods
import ApiCollection.Proofs.TextPieces

/-!
# The block of directives above a member

A readable directive is read as it is written. What the block above a declaration holds is
followed line by line: a line without directives ends the block, and a line with directives is
one more line of it, also when it has a member of its own.
-/

namespace ApiCollection.Java

open Text

theorem map_found_prepend (gap : List Char) (s : DirectiveScan) :
    (s.prepend gap).found.map (·.2) = s.found.map (·.2) := by
  rw [DirectiveScan.prepend]
  cases s.found with
  | nil => rfl
  | cons first found => rfl

private theorem DirectiveScan.blanked_prepend (gap : List Char) (s : DirectiveScan) :
    (s.prepend gap).blanked = gap ++ s.blanked := by
  obtain ⟨found, rest⟩ := s
  cases found with
  | nil => rfl
  | cons first found => simp [prepend, blanked]

private theorem DirectiveScan.blanked_cons (d : Directive) (s : DirectiveScan) :
    (s.cons d).blanked = ' ' :: s.blanked := rfl

theorem directives_nil : directives [] = [] := by
  rw [directives, DirectiveScan.of]
  rfl

/-- Other characters are passed over. -/
theorem scan_cons {c : Char} (quote : (c == '"' || c == '\'') = false) (sign : c ≠ '@')
    (cs : List Char) : DirectiveScan.of (c :: cs) = (DirectiveScan.of cs).prepend [c] := by
  rw [DirectiveScan.of, if_neg (by simp [quote]), if_neg (by simpa using sign)]

theorem directives_cons {c : Char} (quote : (c == '"' || c == '\'') = false) (sign : c ≠ '@')
    (cs : List Char) : directives (c :: cs) = directives cs := by
  rw [directives, scan_cons quote sign, map_found_prepend, directives]

/-- A text without quotes and at signs is passed over. -/
theorem scan_plain {cs : List Char} (plain : ∀ c ∈ cs, c ∉ ['"', '\'', '@']) (rest : List Char) :
    directives (cs ++ rest) = directives rest ∧
      (DirectiveScan.of (cs ++ rest)).blanked = cs ++ (DirectiveScan.of rest).blanked := by
  induction cs with
  | nil => exact ⟨rfl, rfl⟩
  | cons c cs ih =>
    rw [List.forall_mem_cons] at plain
    obtain ⟨same, text⟩ := ih plain.2
    have signs := plain.1
    simp only [List.mem_cons, List.not_mem_nil, or_false, not_or] at signs
    have quote : (c == '"' || c == '\'') = false := by simp [signs.1, signs.2.1]
    rw [List.cons_append, directives_cons quote signs.2.2, scan_cons quote signs.2.2,
      DirectiveScan.blanked_prepend, same, text]
    exact ⟨rfl, rfl⟩

theorem plain_of_isBlank {blanks : List Char} (h : blanks.all isBlank = true) :
    ∀ c ∈ blanks, c ∉ ['"', '\'', '@'] := by
  intro c member signs
  have blank := List.all_eq_true.1 h c member
  simp only [List.mem_cons, List.not_mem_nil, or_false] at signs
  obtain rfl | rfl | rfl := signs <;> exact absurd blank (by decide)

/-- A text does not begin with an argument list, whatever blanks stand in front. -/
def Bare (rest : List Char) : Prop := (rest.dropWhile isAsciiBlank).head? ≠ some '('

theorem argumentList?_of_bare {rest : List Char} (bare : Bare rest) :
    argumentList? rest = none := by
  rw [argumentList?]
  split
  · rename_i behind open'
    rw [Bare, open'] at bare
    exact absurd rfl bare
  · rfl

theorem bare_of_head? {cs : List Char} {c : Char} (head : cs.head? = some c)
    (blank : isBlank c = false) (paren : c ≠ '(') : Bare cs := by
  have start : cs.head?.any isAsciiBlank = false := by
    rw [head, Option.any_some]
    by_contra ascii
    rw [Bool.not_eq_false] at ascii
    rw [isBlank_of_isAsciiBlank ascii] at blank
    cases blank
  rw [Bare, dropWhile_of_head? start, head]
  exact fun same => paren (Option.some.inj same)

/-- Blanks do not begin an argument list. -/
theorem bare_blanks {blanks rest : List Char} (h : blanks.all isBlank = true) (bare : Bare rest) :
    Bare (blanks ++ rest) := by
  induction blanks with
  | nil => exact bare
  | cons c blanks ih =>
    rw [List.all_cons, Bool.and_eq_true] at h
    rw [Bare, List.cons_append, List.dropWhile_cons]
    split
    · exact ih h.2
    · rintro paren
      obtain rfl : c = '(' := Option.some.inj paren
      exact absurd h.1 (by decide)

private theorem isAsciiBlank_of_isTabOrSpace {c : Char} (h : isTabOrSpace c = true) :
    isAsciiBlank c = true := by
  obtain rfl | rfl := isTabOrSpace_cases h <;> rfl

theorem argumentList?_enclosed {space inside : List Char} (h : space.all isAsciiBlank = true)
    (enclosed : Enclosed inside) (rest : List Char) :
    argumentList? (space ++ '(' :: (inside ++ ')' :: rest)) =
      some (inside, space ++ '(' :: (inside ++ [')']), rest) := by
  have paren : isAsciiBlank '(' = false := by decide
  have behind : (space ++ '(' :: (inside ++ ')' :: rest)).dropWhile isAsciiBlank =
      '(' :: (inside ++ ')' :: rest) := by
    rw [List.dropWhile_append_of_pos (List.all_eq_true.1 h), List.dropWhile_cons, paren]
    rfl
  have front : (space ++ '(' :: (inside ++ ')' :: rest)).takeWhile isAsciiBlank = space := by
    rw [List.takeWhile_append_of_pos (List.all_eq_true.1 h), List.takeWhile_cons, paren]
    exact List.append_nil space
  rw [argumentList?, behind, front]
  change Option.map _ (insideParens? (inside ++ ')' :: rest)) = _
  rw [insideParens?_of_enclosed enclosed]
  simp

theorem isNameChar_of_isBlank {c : Char} (h : isBlank c = true) : isNameChar c = false := by
  by_contra name
  rw [Bool.not_eq_false] at name
  have undotted := isDotted_of_isBlank h
  rw [isDotted_of_isNameChar name] at undotted
  cases undotted

/-- What a scan finds behind an at sign. -/
theorem scan_sign {qualified behind rest : List Char} {d : Directive}
    (characters : qualified.all isNameChar = true) (ends : behind.head?.any isNameChar = false)
    (named : directiveNamed? qualified behind = some d) (after : afterArguments behind = rest) :
    DirectiveScan.of ('@' :: (qualified ++ behind)) = (DirectiveScan.of rest).cons d := by
  have each := List.all_eq_true.1 characters
  have name : (qualified ++ behind).takeWhile isNameChar = qualified := by
    rw [List.takeWhile_append_of_pos each, takeWhile_of_head? ends, List.append_nil]
  have left : (qualified ++ behind).dropWhile isNameChar = behind := by
    rw [List.dropWhile_append_of_pos each, dropWhile_of_head? ends]
  rw [DirectiveScan.of, if_neg (by decide), if_pos (by decide)]
  simp only [name, left, named, after]

/-- A directive is readable when its name is one, its argument list is enclosed, and blanks are
behind it. -/
structure Written.Readable (w : Written) : Prop where
  characters : w.qualified.all isNameChar = true
  named : lastPiece '.' w.qualified ≠ []
  declares : lastPiece '.' w.qualified ≠ "interface".toList
  space : ∀ space inside, w.arguments = some (space, inside) → space.all isTabOrSpace = true
  enclosed : ∀ space inside, w.arguments = some (space, inside) → Enclosed inside
  gap : w.gap.all isTabOrSpace = true

theorem Written.WellFormed.readable {w : Written} (wf : w.WellFormed) : w.Readable where
  characters := wf.characters
  named := wf.named
  declares := wf.declares
  space := wf.space
  enclosed := wf.enclosed
  gap := wf.gap

/-- A directive is legible when its name is one, and its argument list is enclosed. -/
structure Written.Legible (w : Written) : Prop where
  characters : w.qualified.all isNameChar = true
  named : lastPiece '.' w.qualified ≠ []
  declares : lastPiece '.' w.qualified ≠ "interface".toList
  space : ∀ space inside, w.arguments = some (space, inside) → space.all isAsciiBlank = true
  enclosed : ∀ space inside, w.arguments = some (space, inside) → Enclosed inside

theorem Written.Readable.legible {w : Written} (readable : w.Readable) : w.Legible where
  characters := readable.characters
  named := readable.named
  declares := readable.declares
  space space inside arguments :=
    all_wider (fun _ => isAsciiBlank_of_isTabOrSpace) (readable.space space inside arguments)
  enclosed := readable.enclosed

private theorem directiveNamed?_written {w : Written} (legible : w.Legible) (cs : List Char) :
    directiveNamed? w.qualified cs = some {
      name := String.ofList (lastPiece '.' w.qualified)
      args := (argumentList? cs).map fun (inside, _, _) => String.ofList (trim inside)
      raw := String.ofList ('@' :: w.qualified ++
        (argumentList? cs).elim [] fun (_, written, _) => written) } := by
  have named : ((lastPiece '.' w.qualified).isEmpty ||
      lastPiece '.' w.qualified == "interface".toList) = false := by
    rw [Bool.or_eq_false_iff, beq_eq_false_iff_ne]
    exact ⟨by simpa using legible.named, legible.declares⟩
  rw [directiveNamed?]
  dsimp only
  rw [named]
  rfl

/-- A legible directive is read as it is written, unless what follows would belong to it. -/
theorem scan_written {w : Written} (legible : w.Legible) {rest : List Char}
    (apart : w.arguments = none → rest.head?.any isNameChar = false ∧ Bare rest) :
    DirectiveScan.of (w.text ++ rest) = (DirectiveScan.of rest).cons w.directive := by
  cases arguments : w.arguments with
  | none =>
    obtain ⟨ends, bare⟩ := apart arguments
    have text : w.text ++ rest = '@' :: (w.qualified ++ rest) := by
      simp [Written.text, Written.argumentText, arguments]
    rw [text]
    refine scan_sign legible.characters ends ?_ ?_
    · rw [directiveNamed?_written legible, argumentList?_of_bare bare]
      simp [Written.directive, Written.text, Written.argumentText, arguments]
    · rw [afterArguments, argumentList?_of_bare bare]
      rfl
  | some found =>
    obtain ⟨space, inside⟩ := found
    have blanks := legible.space space inside arguments
    have list := argumentList?_enclosed blanks (legible.enclosed space inside arguments) rest
    have text : w.text ++ rest = '@' :: (w.qualified ++ (space ++ '(' :: (inside ++ ')' :: rest))) := by
      simp [Written.text, Written.argumentText, arguments]
    have paren : isNameChar '(' = false := by decide
    have blanks' : space.all isBlank = true := all_wider (fun _ => isBlank_of_isAsciiBlank) blanks
    have ends : (space ++ '(' :: (inside ++ ')' :: rest)).head?.any isNameChar = false :=
      head?_any_blanks blanks' (fun _ => isNameChar_of_isBlank) fun _ => paren
    rw [text]
    refine scan_sign legible.characters ends ?_ ?_
    · rw [directiveNamed?_written legible, list]
      simp [Written.directive, Written.text, Written.argumentText, arguments]
    · rw [afterArguments, list]
      rfl

theorem directives_written {w : Written} (legible : w.Legible) {rest : List Char}
    (apart : w.arguments = none → rest.head?.any isNameChar = false ∧ Bare rest) :
    directives (w.text ++ rest) = w.directive :: directives rest := by
  rw [directives, scan_written legible apart]
  rfl

private theorem bare_leadText (ws : List Written) {rest : List Char} (bare : Bare rest) :
    Bare (leadText ws ++ rest) := by
  cases ws with
  | nil => exact bare
  | cons w ws =>
    change some '@' ≠ some '('
    decide

/-- Directives one behind the other are read one by one, and each leaves a blank in front of its
gap. -/
theorem scan_leadText {ws : List Written} (legible : ∀ w ∈ ws, w.Legible)
    (blank : ∀ w ∈ ws, w.gap.all isBlank = true) {rest : List Char} (bare : Bare rest)
    (nameless : ∀ w, ws.getLast? = some w → w.arguments = none → w.gap = [] →
      rest.head?.any isNameChar = false) :
    directives (leadText ws ++ rest) = ws.map Written.directive ++ directives rest ∧
      (DirectiveScan.of (leadText ws ++ rest)).blanked =
        ws.flatMap (fun w => ' ' :: w.gap) ++ (DirectiveScan.of rest).blanked := by
  induction ws with
  | nil => exact ⟨rfl, rfl⟩
  | cons w ws ih =>
    rw [List.forall_mem_cons] at legible blank
    have text : leadText (w :: ws) ++ rest = w.text ++ (w.gap ++ (leadText ws ++ rest)) := by
      simp [leadText]
    have first : w.arguments = none → w.gap = [] →
        (leadText ws ++ rest).head?.any isNameChar = false := by
      cases ws with
      | nil => exact nameless w rfl
      | cons v ws => exact fun _ _ => rfl
    have later : ∀ v, ws.getLast? = some v → v.arguments = none → v.gap = [] →
        rest.head?.any isNameChar = false := by
      intro v last
      exact nameless v (by rw [List.getLast?_cons, last]; rfl)
    have step := scan_written legible.1 fun none' =>
      ⟨head?_any_blanks blank.1 (fun _ => isNameChar_of_isBlank) (first none'),
        bare_blanks blank.1 (bare_leadText ws bare)⟩
    obtain ⟨passed, left⟩ := scan_plain (plain_of_isBlank blank.1) (leadText ws ++ rest)
    obtain ⟨found, gaps⟩ := ih legible.2 blank.2 later
    rw [text, directives, step, DirectiveScan.blanked_cons, left, gaps]
    constructor
    · change w.directive :: directives (w.gap ++ (leadText ws ++ rest)) = _
      rw [passed, found]
      rfl
    · simp

theorem directives_leadText {ws : List Written} (wf : ∀ w ∈ ws, w.WellFormed) {rest : List Char}
    (bare : Bare rest) (nameless : ∀ w, ws.getLast? = some w → w.arguments = none → w.gap = [] →
      rest.head?.any isNameChar = false) :
    directives (leadText ws ++ rest) = ws.map Written.directive ++ directives rest :=
  (scan_leadText (fun w member => (wf w member).readable.legible)
    (fun w member => all_isBlank (wf w member).gap) bare nameless).1

theorem getLast?_written {w : Written} (readable : w.Readable) :
    ∃ c, w.text.getLast? = some c ∧ isBlank c = false := by
  cases arguments : w.arguments with
  | none =>
    have text : w.text = '@' :: w.qualified := by
      simp [Written.text, Written.argumentText, arguments]
    rw [text, List.getLast?_cons]
    cases last : w.qualified.getLast? with
    | none => exact ⟨'@', rfl, by decide⟩
    | some c =>
      have name := List.all_eq_true.1 readable.characters c (List.mem_of_getLast? last)
      exact ⟨c, rfl, (of_isDotted (isDotted_of_isNameChar name)).1⟩
  | some found =>
    have text : w.text = ('@' :: (w.qualified ++ (found.1 ++ '(' :: found.2))) ++ [')'] := by
      simp [Written.text, Written.argumentText, arguments]
    rw [text, List.getLast?_concat]
    exact ⟨')', rfl, by decide⟩

def Member.own (m : Member) : List Directive := m.directives.map Written.directive

section Member

variable {m : Member} (wf : m.WellFormed)

include wf

theorem directives_trim_lead : directives (trim m.lead) = m.own := by
  rw [Member.lead, Member.own]
  have indent := all_isBlank wf.indent
  obtain none' | ⟨ws, w, split⟩ := List.eq_nil_or_concat m.directives
  · have empty : trim (m.indent ++ leadText []) = [] := by
      rw [leadText, List.flatMap_nil, List.append_nil]
      exact trim_append_blanks indent []
    rw [none', empty, directives_nil]
    rfl
  · rw [List.concat_eq_append] at split
    have each : ∀ v ∈ ws ++ [w], v.WellFormed := split ▸ wf.directives
    rw [List.forall_mem_append, List.forall_mem_singleton] at each
    obtain ⟨c, last, blank⟩ := getLast?_written each.2.readable
    have first : (leadText ws ++ w.text).head? = some '@' := by
      cases ws <;> rfl
    have ends : (leadText ws ++ w.text).getLast? = some c := by
      rw [List.getLast?_append, last]
      rfl
    have sign : Bare w.text := by
      change some '@' ≠ some '('
      decide
    have text : m.indent ++ leadText (ws ++ [w]) =
        m.indent ++ ((leadText ws ++ w.text) ++ w.gap) := by
      simp [leadText]
    have alone : directives (w.text ++ []) = w.directive :: directives [] :=
      directives_written each.2.readable.legible fun _ => ⟨rfl, (Option.some_ne_none _).symm⟩
    rw [List.append_nil, directives_nil] at alone
    rw [split, text, trim_between indent first (by decide) ends blank (all_isBlank each.2.gap),
      directives_leadText each.1 sign fun _ _ _ _ => rfl, alone, List.map_append]
    rfl

theorem head?_declaration : ∃ c, m.declaration.head? = some c ∧ isDotted c = true := by
  cases base : m.type.base with
  | nil => exact absurd base wf.type.nonempty
  | cons c cs =>
    have dotted := wf.type.characters
    rw [base, List.all_cons, Bool.and_eq_true] at dotted
    refine ⟨c, ?_, dotted.1⟩
    rw [Member.declaration, ReturnType.text, base]
    rfl

/-- The line of a member has the directives of the member, and those of its declaration. -/
theorem directives_content : directives m.content = m.own ++ directives m.declaration := by
  obtain ⟨c, head, dotted⟩ := head?_declaration wf
  obtain ⟨blank, -, -, paren, -⟩ := of_isDotted dotted
  have bare : Bare m.declaration := bare_of_head? head blank paren
  exact directives_leadText wf.directives bare fun w last none' empty =>
    absurd empty (wf.parted w last none')

end Member

/-- The blocks that are found stand before those that were found already. -/
theorem blocksAbove_eq_append (pending blocks lines : List (List Char)) :
    blocksAbove pending blocks lines = blocksAbove pending [] lines ++ blocks := by
  induction lines generalizing pending blocks with
  | nil => rfl
  | cons line above ih =>
    rw [blocksAbove, blocksAbove]
    dsimp only
    split
    · exact ih pending blocks
    · split
      · split
        · rw [ih [] (_ :: blocks), ih [] [_], List.append_assoc]
          rfl
        · exact ih _ blocks
      · split
        · rfl
        · exact ih _ blocks

/-- The blocks of directives that a text leaves for what begins on the next line. -/
def blocksBelow (cs : List Char) : List (List Char) :=
  blocksAbove [] [] ((splitAtChar '\n' cs).map withoutReturn).reverse

private theorem blocksAbove_nil_line (blocks above : List (List Char)) :
    blocksAbove [] blocks ([] :: above) = blocksAbove [] blocks above := by
  rw [blocksAbove]
  rfl

/-- It does not matter that a line feed at the end opens no line. -/
theorem blocksAbove_lines (cs : List Char) (blocks : List (List Char)) :
    blocksAbove [] blocks (lines cs).reverse = blocksBelow cs ++ blocks := by
  rw [blocksBelow, ← blocksAbove_eq_append, lines]
  split
  · rename_i empty
    obtain ⟨last, some', none'⟩ := (Option.any_eq_true _ _).1 empty
    obtain ⟨front, split⟩ := List.getLast?_eq_some_iff.1 some'
    rw [List.isEmpty_iff] at none'
    rw [split, none', List.dropLast_concat, List.map_append, List.reverse_append]
    exact (blocksAbove_nil_line blocks _).symm
  · rfl

theorem flatMap_own (own : List Char) :
    (if own.isEmpty then [] else [own]).flatMap directives = directives own := by
  split
  · rename_i empty
    rw [List.isEmpty_iff.1 empty, directives_nil]
    rfl
  · exact List.flatMap_singleton _ _

theorem ne_lineFeed_of_mem_reverse {line : List Char} (oneLine : '\n' ∉ line) :
    ∀ c ∈ line.reverse, (c != '\n') = true := by
  intro c hc
  rw [bne_iff_ne]
  rintro rfl
  exact oneLine (List.mem_reverse.1 hc)

/-- On the first line of a text there are only the directives in front of a place. -/
theorem directivesAbove_first {lead : List Char} (oneLine : '\n' ∉ lead) :
    directivesAbove lead = directives (trim lead) := by
  have other := ne_lineFeed_of_mem_reverse oneLine
  have own : lead.reverse.takeWhile (· != '\n') = lead.reverse := List.takeWhile_eq_self_iff.2 other
  have above : lead.reverse.dropWhile (· != '\n') = [] := List.dropWhile_eq_nil_iff.2 other
  rw [directivesAbove]
  simp only [own, above, List.reverse_reverse]
  exact flatMap_own (trim lead)

/-- The directives above a place of a line, and those in front of it. -/
theorem directivesAbove_line {lead : List Char} (oneLine : '\n' ∉ lead) (cs : List Char) :
    directivesAbove (cs ++ '\n' :: lead) =
      (blocksBelow cs).flatMap directives ++ directives (trim lead) := by
  have other := ne_lineFeed_of_mem_reverse oneLine
  have reversed : (cs ++ '\n' :: lead).reverse = lead.reverse ++ '\n' :: cs.reverse := by simp
  have own : (lead.reverse ++ '\n' :: cs.reverse).takeWhile (· != '\n') = lead.reverse := by
    rw [List.takeWhile_append_of_pos other]
    exact List.append_nil _
  have above : (lead.reverse ++ '\n' :: cs.reverse).dropWhile (· != '\n') = '\n' :: cs.reverse :=
    List.dropWhile_append_of_pos other
  rw [directivesAbove, reversed]
  simp only [own, above, List.tail_cons, List.reverse_reverse]
  rw [blocksAbove_lines, List.flatMap_append, flatMap_own]

theorem getLast?_content (m : Member) :
    ∃ c, m.content.getLast? = some c ∧ (c = ';' ∨ c = '\x7d') := by
  have text : ∃ front c, m.content = front ++ [c] ∧ (c = ';' ∨ c = '\x7d') := by
    cases ending : m.ending with
    | semicolon =>
      refine ⟨leadText m.directives ++ (m.type.text ++ (m.gap ++ (m.name ++ '(' ::
        (m.parameters ++ ')' :: m.space)))), ';', ?_, Or.inl rfl⟩
      simp [Member.content, Member.declaration, ending, Ending.text]
    | body inside =>
      refine ⟨leadText m.directives ++ (m.type.text ++ (m.gap ++ (m.name ++ '(' ::
        (m.parameters ++ ')' :: (m.space ++ '\x7b' :: inside))))), '\x7d', ?_, Or.inr rfl⟩
      simp [Member.content, Member.declaration, ending, Ending.text]
  obtain ⟨front, c, text, which⟩ := text
  exact ⟨c, by rw [text, List.getLast?_concat], which⟩

theorem startsWith_of_head? {c d : Char} {cs : List Char} (head : cs.head? = some c) (ne : d ≠ c)
    (ds : List Char) : startsWith (d :: ds) cs = false := by
  cases cs with
  | nil => cases head
  | cons e cs =>
    rw [List.head?_cons, Option.some.injEq] at head
    rw [startsWith, after?, if_neg (by simpa [head] using ne)]
    rfl

theorem startsWith_singleton {c d : Char} {cs : List Char} (head : cs.head? = some c) :
    startsWith [d] cs = (d == c) := by
  rw [Bool.eq_iff_iff, startsWith_singleton_iff, head, Option.some.injEq, beq_iff_eq, eq_comm]

section Member

variable {m : Member} (wf : m.WellFormed)

include wf

/-- The line of a member begins with an at sign when the member has a directive, and with the name
of its type otherwise. -/
theorem head?_content : ∃ c, m.content.head? = some c ∧ isBlank c = false ∧ c ≠ '/' ∧ c ≠ '*' ∧
    ('@' == c) = !m.directives.isEmpty := by
  rw [Member.content]
  cases m.directives with
  | nil =>
    obtain ⟨c, head, dotted⟩ := head?_declaration wf
    have other {d : Char} (undotted : isDotted d = false) : c ≠ d := by
      rintro rfl
      rw [dotted] at undotted
      cases undotted
    refine ⟨c, head, (of_isDotted dotted).1, other (by decide), other (by decide), ?_⟩
    exact beq_eq_false_iff_ne.2 (other (by decide)).symm
  | cons w ws => exact ⟨'@', rfl, by decide, by decide, by decide, rfl⟩

private theorem trim_member : trim (withoutReturn m.text) = m.content := by
  obtain ⟨c, first, blank, -⟩ := head?_content wf
  obtain ⟨d, last, ends⟩ := getLast?_content m
  have lastBlank : isBlank d = false := by
    obtain rfl | rfl := ends <;> decide
  rw [trim_withoutReturn, Member.text,
    trim_between (all_isBlank wf.indent) first blank last lastBlank wf.trail]

private theorem isCommentLine_content : isCommentLine m.content = false := by
  obtain ⟨c, first, -, slash, star, -⟩ := head?_content wf
  obtain ⟨d, last, ends⟩ := getLast?_content m
  have notSlash : '/' ≠ d := by
    obtain rfl | rfl := ends <;> decide
  have ending : endsWith "*/".toList m.content = false := by
    rw [endsWith, before?, Option.isSome_map]
    exact startsWith_of_head? (List.head?_reverse.trans last) notSlash ['*']
  have comment : startsWith "//".toList m.content = false :=
    startsWith_of_head? first slash.symm ['/']
  have opening : startsWith "/*".toList m.content = false :=
    startsWith_of_head? first slash.symm ['*']
  rw [isCommentLine, comment, opening, startsWith_of_head? first star.symm, ending]
  rfl

/-- A member without directives ends the block, and a member with directives is one more line of
the block. -/
theorem blocksBelow_member (cs : List Char) : blocksBelow (cs ++ '\n' :: m.text) =
    if m.directives.isEmpty then [] else blocksBelow cs ++ [m.content] := by
  obtain ⟨c, first, -, -, -, sign⟩ := head?_content wf
  have line : splitAtChar '\n' m.text = [m.text] := by
    refine splitWhere_of_none fun c hc => beq_eq_false_iff_ne.2 ?_
    rintro rfl
    exact wf.oneLine hc
  have lines : splitAtChar '\n' (cs ++ '\n' :: m.text) = splitAtChar '\n' cs ++ [m.text] := by
    rw [← line]
    exact splitWhere_append rfl cs m.text
  have nonempty : m.content.isEmpty = false := by
    rw [List.isEmpty_eq_false_iff]
    intro empty
    rw [empty] at first
    cases first
  rw [blocksBelow, lines, List.map_append, List.reverse_append, List.map_singleton,
    List.reverse_singleton, List.singleton_append, blocksAbove]
  simp only [trim_member wf, nonempty, isCommentLine_content wf, joinWith_singleton,
    startsWith_singleton first, sign, wf.balanced]
  cases m.directives.isEmpty with
  | true => rfl
  | false => exact blocksAbove_eq_append [] [m.content] _

end Member

end ApiCollection.Java
