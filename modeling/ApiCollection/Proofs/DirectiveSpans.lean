import ApiCollection.Proofs.ByteOffsets
import ApiCollection.Proofs.WrittenParameters

/-!
# Spans of directives

The directives that a scan finds stand one behind the other in the text, with gaps between them. So
each has a span, which begins and ends at characters and holds the directive as it is written. No
literal is open where a directive begins, and a directive that is read alone is the same one.
-/

namespace ApiCollection.Java

open Text

namespace ParenSearch

variable {s t : ParenSearch}

def Alike (s t : ParenSearch) : Prop := s.literal = t.literal ∧ s.escaped = t.escaped

private theorem alike_step (alike : s.Alike t) (c : Char) : (s.step c).Alike (t.step c) := by
  obtain ⟨depth, literal, escaped⟩ := s
  obtain ⟨depth', literal', escaped'⟩ := t
  obtain ⟨rfl, rfl⟩ := alike
  cases literal with
  | some quote =>
    dsimp only [step]
    split_ifs <;> exact ⟨rfl, rfl⟩
  | none =>
    dsimp only [step]
    split_ifs <;> exact ⟨rfl, rfl⟩

private theorem alike_run (alike : s.Alike t) (cs : List Char) : (s.run cs).Alike (t.run cs) := by
  induction cs generalizing s t with
  | nil => exact alike
  | cons c cs ih => exact ih (alike_step alike c)

def Outside (s : ParenSearch) : Prop := s.Alike {}

private theorem outside_start : Outside {} := ⟨rfl, rfl⟩

theorem outside_step (outside : s.Outside) {c : Char} (double : c ≠ '"') (single : c ≠ '\'') :
    (s.step c).Outside := by
  obtain ⟨depth, literal, escaped⟩ := s
  obtain ⟨rfl, rfl⟩ := outside
  have other : (c == '"' || c == '\'') = false := by simp [double, single]
  simp only [step, other, Bool.false_eq_true, if_false]
  split_ifs <;> exact ⟨rfl, rfl⟩

theorem outside_run (outside : s.Outside) {cs : List Char} (double : '"' ∉ cs)
    (single : '\'' ∉ cs) : (s.run cs).Outside := by
  induction cs generalizing s with
  | nil => exact outside
  | cons c cs ih =>
    obtain ⟨double, double'⟩ := List.ne_and_not_mem_of_not_mem_cons double
    obtain ⟨single, single'⟩ := List.ne_and_not_mem_of_not_mem_cons single
    exact ih (outside_step outside double.symm single.symm) double' single'

/-- A literal that is left behind is closed, or it reaches to the end of the text. -/
theorem outside_run_literal (n : Int) (quote : Char) (cs : List Char) :
    (run ⟨n, some quote, false⟩ (splitLiteral quote cs).1).Outside ∨
      (splitLiteral quote cs).2 = [] := by
  fun_induction splitLiteral quote cs with
  | case1 => exact .inr rfl
  | case2 c backslash => exact .inr rfl
  | case3 c backslash d rest ih =>
    obtain rfl := beq_iff_eq.1 backslash
    exact ih
  | case4 c cs plain ends =>
    refine .inl ?_
    simp only [run_cons, step, plain, ends]
    exact ⟨rfl, rfl⟩
  | case5 c cs plain other ih =>
    simp only [run_cons, step, plain, other]
    exact ih

/-- Behind parentheses that are closed no literal is open. -/
theorem outside_run_parens (outside : s.Outside) {inside : List Char} (enclosed : Enclosed inside) :
    (s.run ('(' :: (inside ++ [')']))).Outside := by
  obtain ⟨closed, -, -⟩ := of_closes (enclosed_iff.1 enclosed).2
  have unescaped := escaped_run (fun _ => rfl) inside closed
  have opened : (s.step '(').Alike { depth := 1 } :=
    outside_step outside (by decide) (by decide)
  rw [run_cons, run_append]
  refine outside_step ?_ (by decide) (by decide)
  obtain ⟨same, same'⟩ := alike_run opened inside
  exact ⟨same.trans closed, same'.trans unescaped⟩

end ParenSearch

def writtenArguments (cs : List Char) : List Char :=
  (argumentList? cs).elim [] fun (_, written, _) => written

theorem writtenArguments_append (cs : List Char) :
    writtenArguments cs ++ afterArguments cs = cs := by
  rw [writtenArguments, afterArguments]
  cases list : argumentList? cs with
  | none => rfl
  | some parts => exact (exists_of_argumentList? list).1.symm

theorem raw_eq {qualified behind : List Char} {d : Directive}
    (named : directiveNamed? qualified behind = some d) :
    d.raw.toList = '@' :: (qualified ++ writtenArguments behind) := raw_of_directiveNamed? named

/-- An argument list is blanks and an inside that its parentheses enclose. -/
theorem writtenArguments_cases (cs : List Char) :
    argumentList? cs = none ∧ writtenArguments cs = [] ∨
      ∃ space inside, space.all isAsciiBlank = true ∧ Enclosed inside ∧
        writtenArguments cs = space ++ '(' :: (inside ++ [')']) ∧
        argumentList? cs = some (inside, writtenArguments cs, afterArguments cs) := by
  cases list : argumentList? cs with
  | none => exact .inl ⟨rfl, by rw [writtenArguments, list]; rfl⟩
  | some parts =>
    obtain ⟨inside, written, rest⟩ := parts
    obtain ⟨-, space, blank, shape⟩ := exists_of_argumentList? list
    have enclosed : Enclosed inside := by
      rw [argumentList?] at list
      split at list
      · obtain ⟨⟨inside', rest'⟩, found, same⟩ := Option.map_eq_some_iff.1 list
        rw [← (Prod.mk.inj same).1]
        exact enclosed_iff.2 (ParenSearch.staysOpen_of_close? found)
      · cases list
    have written' : writtenArguments cs = written := by rw [writtenArguments, list]; rfl
    have rest' : afterArguments cs = rest := by rw [afterArguments, list]; rfl
    exact .inr ⟨space, inside, blank, enclosed, written'.trans shape, by rw [written', rest']⟩

/-- An argument list is read alone as it is read in its text. -/
theorem argumentList?_writtenArguments (cs : List Char) : argumentList? (writtenArguments cs) =
    (argumentList? cs).map fun (inside, written, _) => (inside, written, []) := by
  obtain ⟨none', empty⟩ | ⟨space, inside, blank, enclosed, shape, list⟩ := writtenArguments_cases cs
  · rw [empty, none']
    rfl
  · rw [list, shape]
    exact argumentList?_enclosed blank enclosed []

private theorem head?_writtenArguments (cs : List Char) :
    (writtenArguments cs).head?.any isNameChar = false := by
  obtain ⟨-, empty⟩ | ⟨space, inside, blank, -, shape, -⟩ := writtenArguments_cases cs
  · rw [empty]
    rfl
  · rw [shape]
    exact head?_any_blanks (all_wider (fun _ => isBlank_of_isAsciiBlank) blank)
      (fun _ => isNameChar_of_isBlank) fun _ => rfl

/-- A directive that is read alone is the same one. -/
theorem directives_raw {cs : List Char} {d : Directive} (h : d ∈ directives cs) :
    directives d.raw.toList = [d] := by
  obtain ⟨qualified, behind, characters, named⟩ := exists_of_mem_directives h
  have alone := argumentList?_writtenArguments behind
  have named' : directiveNamed? qualified (writtenArguments behind) = some d := by
    rw [← named, directiveNamed?, directiveNamed?, alone]
    cases argumentList? behind <;> rfl
  have nothing : afterArguments (writtenArguments behind) = [] := by
    rw [afterArguments, alone]
    cases list : argumentList? behind with
    | none => rw [Option.map_none, writtenArguments, list]; rfl
    | some parts => rfl
  rw [raw_eq named, directives, scan_sign characters (head?_writtenArguments behind) named' nothing,
    DirectiveScan.of]
  rfl

private theorem head?_raw {cs : List Char} {d : Directive} (h : d ∈ directives cs) :
    d.raw.toList.head? = some '@' := by
  obtain ⟨qualified, behind, -, named⟩ := exists_of_mem_directives h
  rw [raw_eq named]
  rfl

/-- A part of a text, from one offset up to another. -/
structure Span where
  start : Nat
  stop : Nat
  deriving DecidableEq, Repr

namespace DirectiveScan

/-- What a scan does not change when it takes a literal, a name that is none, a directive or another
character from the front of a text, holds of the scan of every text. -/
theorem of_induction {motive : List Char → DirectiveScan → Prop} (nil : motive [] (of []))
    (literal : ∀ quote cs, (quote == '"' || quote == '\'') = true →
      motive (splitLiteral quote cs).2 (of (splitLiteral quote cs).2) → motive (quote :: cs)
        ((of (splitLiteral quote cs).2).prepend (quote :: (splitLiteral quote cs).1)))
    (refused : ∀ qualified behind, qualified.all isNameChar = true →
      behind.head?.any isNameChar = false → directiveNamed? qualified behind = none →
        motive behind (of behind) →
          motive ('@' :: (qualified ++ behind)) ((of behind).prepend ('@' :: qualified)))
    (found : ∀ qualified behind d, qualified.all isNameChar = true →
      behind.head?.any isNameChar = false → directiveNamed? qualified behind = some d →
        motive (afterArguments behind) (of (afterArguments behind)) →
          motive ('@' :: (qualified ++ behind)) ((of (afterArguments behind)).cons d))
    (other : ∀ c cs, (c == '"' || c == '\'') = false → c ≠ '@' → motive cs (of cs) →
      motive (c :: cs) ((of cs).prepend [c])) (cs : List Char) : motive cs (of cs) := by
  fun_induction of cs with
  | case1 => rwa [of] at nil
  | case2 c cs quote ih => exact literal c cs quote ih
  | case3 c cs quote sign qualified behind none' ih =>
    have whole := refused qualified behind List.all_takeWhile (head?_any_dropWhile _ _) none' ih
    rw [List.takeWhile_append_dropWhile] at whole
    rwa [beq_iff_eq.1 sign]
  | case4 c cs quote sign qualified behind d found' ih =>
    have whole := found qualified behind d List.all_takeWhile (head?_any_dropWhile _ _) found' ih
    rw [List.takeWhile_append_dropWhile] at whole
    rwa [beq_iff_eq.1 sign]
  | case5 c cs quote sign ih =>
    exact other c cs (eq_false_of_ne_true quote) (by simpa using sign) ih

def foundText (found : List (List Char × Directive)) : List Char :=
  found.flatMap fun (gap, d) => gap ++ d.raw.toList

def text (s : DirectiveScan) : List Char := foundText s.found ++ s.rest

private theorem text_prepend (gap : List Char) (s : DirectiveScan) :
    (s.prepend gap).text = gap ++ s.text := by
  obtain ⟨found, rest⟩ := s
  cases found with
  | nil => rfl
  | cons first found => simp [prepend, text, foundText]

private theorem text_cons (d : Directive) (s : DirectiveScan) :
    (s.cons d).text = d.raw.toList ++ s.text := by
  simp [cons, text, foundText]

/-- A scan loses nothing of its text. -/
theorem text_of (cs : List Char) : (of cs).text = cs := by
  induction cs using of_induction with
  | nil => rw [of]; rfl
  | literal quote cs _ ih =>
    rw [text_prepend, ih, List.cons_append, splitLiteral_append]
  | refused qualified behind _ _ _ ih => rw [text_prepend, ih, List.cons_append]
  | found qualified behind d _ _ named ih =>
    rw [text_cons, ih, raw_eq named, List.cons_append, List.append_assoc, writtenArguments_append]
  | other c cs _ _ ih => rw [text_prepend, ih, List.singleton_append]

/-- Whether no literal is open in front of any of some directives, when a search goes over them. -/
def BeginOutside (s : ParenSearch) (found : List (List Char × Directive)) : Prop :=
  ∀ before gap d after, found = before ++ (gap, d) :: after →
    (s.run (foundText before ++ gap)).Outside

private theorem beginOutside_nil (s : ParenSearch) : BeginOutside s [] :=
  fun _ _ _ _ split => absurd split (by simp)

private theorem beginOutside_prepend {s : ParenSearch} {gap : List Char} {scan : DirectiveScan}
    (h : BeginOutside (s.run gap) scan.found) : BeginOutside s (scan.prepend gap).found := by
  obtain ⟨found, rest⟩ := scan
  intro before gap' d after split
  cases found with
  | nil => exact absurd split (by simp [prepend])
  | cons first found =>
    obtain ⟨firstGap, first⟩ := first
    cases before with
    | nil =>
      obtain ⟨same, rfl⟩ := List.cons_eq_cons.1 split
      obtain ⟨rfl, rfl⟩ := Prod.mk.inj same
      have here := h [] firstGap first found rfl
      rwa [← ParenSearch.run_append] at here
    | cons start before =>
      obtain ⟨rfl, rfl⟩ := List.cons_eq_cons.1 split
      have later := h ((firstGap, first) :: before) gap' d after rfl
      rw [← ParenSearch.run_append] at later
      simpa [foundText] using later

private theorem beginOutside_cons {s : ParenSearch} {d : Directive} {scan : DirectiveScan}
    (outside : s.Outside) (h : BeginOutside (s.run d.raw.toList) scan.found) :
    BeginOutside s (scan.cons d).found := by
  intro before gap d' after split
  cases before with
  | nil =>
    obtain ⟨same, rfl⟩ := List.cons_eq_cons.1 split
    obtain ⟨rfl, rfl⟩ := Prod.mk.inj same
    exact outside
  | cons start before =>
    obtain ⟨rfl, behind⟩ := List.cons_eq_cons.1 split
    have later := h before gap d' after behind
    rw [← ParenSearch.run_append] at later
    simpa [foundText] using later

/-- A directive leaves no literal open. -/
theorem outside_run_raw {s : ParenSearch} (outside : s.Outside) {qualified behind : List Char}
    {d : Directive} (characters : qualified.all isNameChar = true)
    (named : directiveNamed? qualified behind = some d) : (s.run d.raw.toList).Outside := by
  have name : (s.run ('@' :: qualified)).Outside :=
    ParenSearch.outside_run (ParenSearch.outside_step outside (by decide) (by decide))
      (not_mem_of_all characters (by decide)) (not_mem_of_all characters (by decide))
  rw [raw_eq named, ← List.cons_append, ParenSearch.run_append]
  obtain ⟨-, empty⟩ | ⟨space, inside, blank, enclosed, shape, -⟩ := writtenArguments_cases behind
  · rw [empty]
    exact name
  · rw [shape, ParenSearch.run_append]
    exact ParenSearch.outside_run_parens (ParenSearch.outside_run name
      (not_mem_of_all blank (by decide)) (not_mem_of_all blank (by decide))) enclosed

/-- Directives begin where no literal is open. -/
theorem beginOutside_of {s : ParenSearch} (outside : s.Outside) (cs : List Char) :
    BeginOutside s (of cs).found := by
  induction cs using of_induction generalizing s with
  | nil =>
    rw [of]
    exact beginOutside_nil s
  | literal quote cs isQuote ih =>
    obtain ⟨depth, literal, escaped⟩ := s
    obtain ⟨rfl, rfl⟩ := outside
    have opened : ParenSearch.step ⟨depth, none, false⟩ quote = ⟨depth, some quote, false⟩ := by
      simp only [ParenSearch.step, isQuote, if_true]
    refine beginOutside_prepend ?_
    rw [ParenSearch.run_cons]
    change BeginOutside ((ParenSearch.step ⟨depth, none, false⟩ quote).run _) _
    rw [opened]
    obtain closed | nothing := ParenSearch.outside_run_literal depth quote cs
    · exact ih closed
    · rw [nothing, of]
      exact beginOutside_nil _
  | refused qualified behind characters _ _ ih =>
    exact beginOutside_prepend (ih (ParenSearch.outside_run
      (ParenSearch.outside_step outside (by decide) (by decide))
      (not_mem_of_all characters (by decide)) (not_mem_of_all characters (by decide))))
  | found qualified behind d characters _ named ih =>
    exact beginOutside_cons outside (ih (outside_run_raw outside characters named))
  | other c cs plain _ ih =>
    rw [Bool.or_eq_false_iff, beq_eq_false_iff_ne, beq_eq_false_iff_ne] at plain
    exact beginOutside_prepend (ih (ParenSearch.outside_step outside plain.1 plain.2))

/-- Directives with their spans, for gaps and directives from an offset on. -/
def spansFrom (n : Nat) : List (List Char × Directive) → List (Directive × Span)
  | [] => []
  | (gap, d) :: found =>
    let start := n + byteLength gap
    let stop := start + byteLength d.raw.toList
    (d, ⟨start, stop⟩) :: spansFrom stop found

def spans (s : DirectiveScan) : List (Directive × Span) := spansFrom 0 s.found

theorem spansFrom_prepend (n : Nat) (gap : List Char) (s : DirectiveScan) :
    spansFrom n (s.prepend gap).found = spansFrom (n + byteLength gap) s.found := by
  obtain ⟨found, rest⟩ := s
  cases found with
  | nil => rfl
  | cons first found =>
    simp only [prepend, spansFrom, byteLength_append, Nat.add_assoc]

theorem spansFrom_cons (n : Nat) (d : Directive) (s : DirectiveScan) :
    let stop := n + byteLength d.raw.toList
    spansFrom n (s.cons d).found = (d, ⟨n, stop⟩) :: spansFrom stop s.found := rfl

theorem map_fst_spansFrom (n : Nat) (found : List (List Char × Directive)) :
    (spansFrom n found).map (·.1) = found.map (·.2) := by
  induction found generalizing n with
  | nil => rfl
  | cons first found ih => exact congrArg (first.2 :: ·) (ih _)

/-- A span is that of one of the directives, behind those in front of it and its gap. -/
theorem exists_of_mem_spansFrom {n : Nat} {found : List (List Char × Directive)} {d : Directive}
    {span : Span} (h : (d, span) ∈ spansFrom n found) : ∃ before gap after,
      found = before ++ (gap, d) :: after ∧ span.start = n + byteLength (foundText before ++ gap) ∧
        span.stop = span.start + byteLength d.raw.toList := by
  induction found generalizing n with
  | nil => cases h
  | cons first found ih =>
    obtain ⟨gap, first⟩ := first
    obtain same | later := List.mem_cons.1 h
    · obtain ⟨rfl, rfl⟩ := Prod.mk.inj same
      exact ⟨[], gap, found, rfl, rfl, rfl⟩
    · obtain ⟨before, gap', after, rfl, start, stop⟩ := ih later
      refine ⟨(gap, first) :: before, gap', after, rfl, ?_, stop⟩
      rw [start]
      simp only [foundText, List.flatMap_cons, byteLength_append]
      omega

theorem pairwise_spansFrom (n : Nat) (found : List (List Char × Directive)) :
    (spansFrom n found).Pairwise fun a b => a.2.stop ≤ b.2.start := by
  induction found generalizing n with
  | nil => exact .nil
  | cons first found ih =>
    refine .cons ?_ (ih _)
    rintro ⟨d, span⟩ later
    obtain ⟨before, gap, after, -, start, -⟩ := exists_of_mem_spansFrom later
    rw [start]
    exact Nat.le_add_right _ _

/-- What holds of a directive of a text and its span. -/
structure SoundSpan (cs : List Char) (d : Directive) (span : Span) : Prop where
  nonempty : span.start < span.stop
  inside : span.stop ≤ byteLength cs
  /-- The span begins and ends at characters, and the text in it is the directive as written. -/
  written : slice? span.start span.stop cs = some d.raw.toList
  sign : d.raw.toList.head? = some '@'
  /-- No literal is open behind the text in front of the span. -/
  outside : ∃ front, slice? 0 span.start cs = some front ∧
    (ParenSearch.run {} front).literal = none
  /-- Alone, the directive is read as the same one. -/
  alone : directives d.raw.toList = [d]

theorem soundSpan_of_mem {cs : List Char} {d : Directive} {span : Span}
    (h : (d, span) ∈ (of cs).spans) : SoundSpan cs d span := by
  obtain ⟨before, gap, after, split, start, stop⟩ := exists_of_mem_spansFrom h
  rw [Nat.zero_add] at start
  have member : d ∈ directives cs := by
    rw [directives, split]
    simp
  obtain ⟨closed, -⟩ := beginOutside_of ParenSearch.outside_start cs before gap d after split
  have whole : cs = (foundText before ++ gap) ++ (d.raw.toList ++
      (foundText after ++ (of cs).rest)) := by
    conv_lhs => rw [← text_of cs, text, split]
    simp [foundText]
  have sign := head?_raw member
  have length : 0 < byteLength d.raw.toList := by
    refine byteLength_pos fun empty => ?_
    rw [empty] at sign
    cases sign
  have written : slice? span.start span.stop cs = some d.raw.toList :=
    slice?_eq_some_iff.2 ⟨_, _, whole, start.symm, by rw [byteLength_append, stop, start]⟩
  exact {
    nonempty := by omega
    inside := by
      have total := congrArg byteLength whole
      simp only [byteLength_append] at total start
      omega
    written
    sign
    outside := ⟨_, slice?_eq_some_iff.2 ⟨[], _, whole, rfl, start.symm⟩, closed⟩
    alone := directives_raw member }

/-- A text from an offset on with a blank in place of each span. -/
def blankedAt? (cs : List Char) (start : Nat) : List Span → Option (List Char)
  | [] => slice? start (byteLength cs) cs
  | span :: spans => (slice? start span.start cs).bind fun gap =>
    (blankedAt? cs span.stop spans).map fun rest => gap ++ ' ' :: rest

private theorem blankedAt?_spansFrom (front : List Char) (found : List (List Char × Directive))
    (rest : List Char) : blankedAt? (front ++ (foundText found ++ rest)) (byteLength front)
      ((spansFrom (byteLength front) found).map (·.2)) =
        some (DirectiveScan.mk found rest).blanked := by
  induction found generalizing front with
  | nil =>
    have whole := slice?_append front rest []
    rw [List.append_nil] at whole
    exact whole
  | cons first found ih =>
    obtain ⟨gap, d⟩ := first
    have gapText := slice?_append front gap (d.raw.toList ++ (foundText found ++ rest))
    have behind := ih (front ++ (gap ++ d.raw.toList))
    have text : front ++ (foundText ((gap, d) :: found) ++ rest) =
        front ++ (gap ++ (d.raw.toList ++ (foundText found ++ rest))) := by simp [foundText]
    rw [List.append_assoc, List.append_assoc] at behind
    simp only [byteLength_append, ← Nat.add_assoc] at gapText behind
    rw [text, spansFrom, List.map_cons, blankedAt?, gapText, Option.bind_some, behind]
    simp [blanked]

/-- The spans can be cut out of the text, which leaves what the scan leaves. -/
theorem blankedAt?_spans (cs : List Char) :
    blankedAt? cs 0 ((of cs).spans.map (·.2)) = some (of cs).blanked := by
  have cut := blankedAt?_spansFrom [] (of cs).found (of cs).rest
  have whole := text_of cs
  rw [text] at whole
  rwa [List.nil_append, whole] at cut

end DirectiveScan

end ApiCollection.Java
