import ApiCollection.Proofs.ClosingParens
import ApiCollection.Proofs.DirectiveSpans

/-!
# Scans of bytes

A text can be scanned for directives byte by byte, with offsets in place of rests. A backslash of a
literal takes the next byte with it, which may be only the first one of a character. All the same
such a scan ends, each of its cuts is at characters, and it sees the directives that a scan of
characters finds, apart from the literals that it skips.
-/

namespace ApiCollection.Java.ByteScan

open Text DirectiveScan

/-- The offset behind the literal that is open at an offset. -/
def literalEnd (bytes : List Char) (quote : Char) (i : Nat) : Nat :=
  if h : i < bytes.length then
    if bytes[i] == '\\' then literalEnd bytes quote (i + 2)
    else if bytes[i] == quote then i + 1
    else literalEnd bytes quote (i + 1)
  else bytes.length
termination_by bytes.length - i

/-- The offset behind the bytes of a class that stand at an offset. -/
def runEnd (p : Char → Bool) (bytes : List Char) (i : Nat) : Nat :=
  i + ((bytes.drop i).takeWhile p).length

/-- The inside of the argument list at an offset, and the offset behind the list, if there is one.
Nothing if the text is cut inside of a character. -/
def argumentsAt? (text : List Char) (i : Nat) : Option (Option (List Char × Nat)) :=
  let paren := runEnd isAsciiBlank (byteChars text) i
  if (byteChars text)[paren]? = some '(' then
    (cutAtOffset? paren text).bind fun _ =>
      match closingParen? paren text with
      | none => some none
      | some close => (slice? (paren + 1) close text).map fun inside => some (inside, close + 1)
  else some none

/-- The directive whose sign stands at an offset, if its name is one, and the offset behind it.
Nothing if the text is cut inside of a character. -/
def directiveAt? (text : List Char) (i : Nat) : Option (Option Directive × Nat) :=
  let nameEnd := runEnd isNameChar (byteChars text) (i + 1)
  (slice? (i + 1) nameEnd text).bind fun qualified =>
    let name := lastPiece '.' qualified
    if name.isEmpty || name == "interface".toList then some (none, nameEnd)
    else (argumentsAt? text nameEnd).bind fun arguments =>
      let stop := arguments.elim nameEnd (·.2)
      (slice? i stop text).map fun raw => (some {
        name := String.ofList name
        args := arguments.map fun (inside, _) => String.ofList (trim inside)
        raw := String.ofList raw }, stop)

/-- What a scan sees: a literal that it skips, or a directive. -/
inductive Sighting
  | literal (span : Span)
  | directive (d : Directive) (span : Span)

namespace Sighting

def span : Sighting → Span
  | literal span => span
  | directive _ span => span

def directive? : Sighting → Option (Directive × Span)
  | literal _ => none
  | directive d span => some (d, span)

end Sighting

private theorem le_literalEnd (bytes : List Char) (quote : Char) (i : Nat) :
    min i bytes.length ≤ literalEnd bytes quote i := by
  fun_induction literalEnd bytes quote i <;> omega

theorem le_runEnd (p : Char → Bool) (bytes : List Char) (i : Nat) : i ≤ runEnd p bytes i :=
  Nat.le_add_right _ _

private theorem lt_of_closingParen? {i close : Nat} {text : List Char}
    (h : closingParen? i text = some close) : i < close := by
  rw [closingParen?] at h
  split at h
  · obtain ⟨⟨inside, rest⟩, -, rfl⟩ := Option.map_eq_some_iff.1 h
    dsimp only
    omega
  · cases h

private theorem lt_of_argumentsAt? {text inside : List Char} {i stop : Nat}
    (h : argumentsAt? text i = some (some (inside, stop))) : i < stop := by
  have := le_runEnd isAsciiBlank (byteChars text) i
  rw [argumentsAt?] at h
  split at h
  · obtain ⟨parts, -, h⟩ := Option.bind_eq_some_iff.1 h
    split at h
    · cases h
    · rename_i close closes
      have := lt_of_closingParen? closes
      obtain ⟨inside', -, same⟩ := Option.map_eq_some_iff.1 h
      obtain ⟨rfl, rfl⟩ := Prod.mk.inj (Option.some.inj same)
      omega
  · cases h

theorem lt_of_directiveAt? {text : List Char} {i stop : Nat} {d : Option Directive}
    (h : directiveAt? text i = some (d, stop)) : i < stop := by
  have := le_runEnd isNameChar (byteChars text) (i + 1)
  rw [directiveAt?] at h
  obtain ⟨qualified, -, h⟩ := Option.bind_eq_some_iff.1 h
  dsimp only at h
  split at h
  · obtain ⟨rfl, rfl⟩ := Prod.mk.inj (Option.some.inj h)
    omega
  · obtain ⟨arguments, found, h⟩ := Option.bind_eq_some_iff.1 h
    obtain ⟨raw, -, same⟩ := Option.map_eq_some_iff.1 h
    obtain ⟨rfl, rfl⟩ := Prod.mk.inj same
    cases arguments with
    | none => exact Nat.lt_of_succ_le this
    | some parts =>
      obtain ⟨inside, stop⟩ := parts
      have := lt_of_argumentsAt? found
      change i < stop
      omega

/-- What a scan sees from an offset on. Nothing if the text is cut inside of a character. -/
def sightings? (text : List Char) (i : Nat) : Option (List Sighting) :=
  if h : i < (byteChars text).length then
    let c := (byteChars text)[i]
    if c == '"' || c == '\'' then
      let stop := literalEnd (byteChars text) c (i + 1)
      (sightings? text stop).map (.literal ⟨i, stop⟩ :: ·)
    else if c == '@' then
      match found : directiveAt? text i with
      | none => none
      | some (none, stop) => sightings? text stop
      | some (some d, stop) => (sightings? text stop).map (.directive d ⟨i, stop⟩ :: ·)
    else sightings? text (i + 1)
  else some []
termination_by (byteChars text).length - i
decreasing_by
  · have := le_literalEnd (byteChars text) (byteChars text)[i] (i + 1)
    omega
  · have := lt_of_directiveAt? found
    omega
  · have := lt_of_directiveAt? found
    omega
  · omega

theorem runEnd_eq {p : Char → Bool} (ascii : ∀ c, p c = true → c.toNat < 128)
    (front cs : List Char) : runEnd p (byteChars (front ++ cs)) (byteLength front) =
      byteLength (front ++ cs.takeWhile p) := by
  rw [runEnd, byteChars_append, ← length_byteChars front, List.drop_left, takeWhile_byteChars ascii,
    byteLength_append, length_byteChars,
    byteLength_of_ascii fun c member => ascii c (List.mem_takeWhile_imp member)]

theorem ne_of_not_ascii {c k : Char} (wide : 128 ≤ c.toNat) (ascii : k.toNat < 128) : c ≠ k := by
  rintro rfl
  exact absurd ascii (Nat.not_lt.2 wide)

/-- A literal goes on behind the character whose first byte has been passed. -/
theorem literalEnd_char {quote : Char} (ascii : quote.toNat < 128) (front : List Char) (c : Char)
    (cs : List Char) : literalEnd (byteChars (front ++ c :: cs)) quote (byteLength front + 1) =
      literalEnd (byteChars (front ++ c :: cs)) quote (byteLength (front ++ [c])) := by
  refine pass_char front c cs fun i inside wide => ?_
  conv_lhs => rw [literalEnd, dif_pos inside]
  rw [if_neg (mt beq_iff_eq.1 (ne_of_not_ascii wide (by decide))),
    if_neg (mt beq_iff_eq.1 (ne_of_not_ascii wide ascii))]

/-- An open literal ends with the text. -/
theorem literalEnd_of_le (quote : Char) {cs : List Char} {i : Nat} (h : byteLength cs ≤ i) :
    literalEnd (byteChars cs) quote i = byteLength cs := by
  rw [literalEnd, dif_neg (by rw [length_byteChars]; omega), length_byteChars]

/-- A literal ends in the bytes of a text where it ends in its characters. -/
theorem literalEnd_eq {quote : Char} (ascii : quote.toNat < 128) (front cs : List Char) :
    literalEnd (byteChars (front ++ cs)) quote (byteLength front) =
      byteLength (front ++ (splitLiteral quote cs).1) := by
  fun_induction splitLiteral quote cs generalizing front with
  | case1 =>
    rw [List.append_nil]
    exact literalEnd_of_le quote (Nat.le_refl _)
  | case2 c backslash =>
    obtain ⟨inside, first⟩ := exists_byte front c []
    have escape := (first '\\' (by decide)).2 (beq_iff_eq.1 backslash)
    rw [literalEnd, dif_pos inside, if_pos (beq_iff_eq.2 escape)]
    refine literalEnd_of_le quote ?_
    rw [byteLength_append, beq_iff_eq.1 backslash]
    exact Nat.add_le_add_left (by decide) _
  | case3 c backslash d rest ih =>
    -- The second byte is inside of the escaped character, or behind it.
    obtain ⟨inside, first⟩ := exists_byte front c (d :: rest)
    have escape := (first '\\' (by decide)).2 (beq_iff_eq.1 backslash)
    have start : byteLength front + 2 = byteLength (front ++ [c]) + 1 := by
      rw [byteLength_append, beq_iff_eq.1 backslash]
      rfl
    have escaped := literalEnd_char ascii (front ++ [c]) d rest
    have next := ih (front ++ [c] ++ [d])
    simp only [List.append_assoc, List.cons_append, List.nil_append] at escaped next
    rw [literalEnd, dif_pos inside, if_pos (beq_iff_eq.2 escape), start, escaped, next]
  | case4 c cs plain ends =>
    obtain ⟨inside, first⟩ := exists_byte front c cs
    rw [beq_iff_eq] at plain ends
    have letter := mt (first '\\' (by decide)).1 plain
    have quoted := (first quote ascii).2 ends
    rw [literalEnd, dif_pos inside, if_neg (mt beq_iff_eq.1 letter), if_pos (beq_iff_eq.2 quoted),
      byteLength_append, ends, byteLength_of_ascii (List.forall_mem_singleton.2 ascii)]
    rfl
  | case5 c cs plain other ih =>
    obtain ⟨inside, first⟩ := exists_byte front c cs
    rw [beq_iff_eq] at plain other
    have letter := mt (first '\\' (by decide)).1 plain
    have inner := mt (first quote ascii).1 other
    have next := ih (front ++ [c])
    simp only [List.append_assoc, List.singleton_append] at next
    rw [literalEnd, dif_pos inside, if_neg (mt beq_iff_eq.1 letter), if_neg (mt beq_iff_eq.1 inner),
      literalEnd_char ascii, next]

private theorem ascii_of_isAsciiBlank (c : Char) (h : isAsciiBlank c = true) : c.toNat < 128 := by
  simp only [isAsciiBlank, Bool.or_eq_true, beq_iff_eq] at h
  obtain (((rfl | rfl) | rfl) | rfl) | rfl := h <;> decide

/-- The argument list at an offset is the one that a reader of characters finds. -/
theorem argumentsAt?_eq (front cs : List Char) : argumentsAt? (front ++ cs) (byteLength front) =
    some ((argumentList? cs).map fun (inside, written, _) =>
      (inside, byteLength (front ++ written))) := by
  have start : front ++ cs = front ++ cs.takeWhile isAsciiBlank ++ cs.dropWhile isAsciiBlank := by
    rw [List.append_assoc, List.takeWhile_append_dropWhile]
  rw [argumentsAt?, runEnd_eq ascii_of_isAsciiBlank, start]
  by_cases bare : Bare cs
  · rw [if_neg (mt (getElem?_byteChars (by decide) _ _).1 bare), argumentList?_of_bare bare]
    rfl
  · obtain ⟨behind, paren⟩ : ∃ behind, cs.dropWhile isAsciiBlank = '(' :: behind :=
      List.head?_eq_some_iff.1 (Decidable.not_not.1 bare)
    have list : argumentList? cs = (insideParens? behind).map fun parts =>
        (parts.1, cs.takeWhile isAsciiBlank ++ '(' :: parts.1 ++ [')'], parts.2) := by
      rw [argumentList?, paren]
      rfl
    rw [if_pos ((getElem?_byteChars (by decide) _ _).2 (Decidable.not_not.1 bare)), list, paren,
      cutAtOffset?_eq_some_iff.2 ⟨rfl, rfl⟩, closingParen?_append]
    generalize cs.takeWhile isAsciiBlank = blanks
    cases found : insideParens? behind with
    | none => rfl
    | some parts =>
      obtain ⟨inside, rest⟩ := parts
      obtain rfl := eq_append_of_insideParens? found
      have opened : byteLength (front ++ blanks ++ ['(']) = byteLength (front ++ blanks) + 1 :=
        byteLength_append _ _
      have closed : byteLength (front ++ (blanks ++ '(' :: inside ++ [')'])) =
          byteLength (front ++ blanks) + 1 + byteLength inside + 1 := by
        have whole : front ++ (blanks ++ '(' :: inside ++ [')']) =
            front ++ blanks ++ ['('] ++ inside ++ [')'] := by simp
        rw [whole, byteLength_append, byteLength_append, opened]
        rfl
      have cut := slice?_append (front ++ blanks ++ ['(']) inside (')' :: rest)
      rw [byteLength_append _ inside, opened, List.append_assoc _ ['('],
        List.singleton_append] at cut
      simp only [Option.bind_some, Option.map_some, cut, closed]

/-- The directive at an offset is the one that a reader of characters finds. -/
theorem directiveAt?_eq (front : List Char) {qualified behind : List Char}
    (characters : qualified.all isNameChar = true) (ends : behind.head?.any isNameChar = false) :
    directiveAt? (front ++ '@' :: (qualified ++ behind)) (byteLength front) =
      some ((directiveNamed? qualified behind).elim (none, byteLength (front ++ '@' :: qualified))
        fun d => (some d, byteLength (front ++ d.raw.toList))) := by
  have sign : byteLength front + 1 = byteLength (front ++ ['@']) :=
    (byteLength_append front ['@']).symm
  have text : front ++ '@' :: (qualified ++ behind) = front ++ ['@'] ++ (qualified ++ behind) := by
    simp
  have nameEnd : front ++ ['@'] ++ qualified = front ++ '@' :: qualified := by simp
  have name : (qualified ++ behind).takeWhile isNameChar = qualified := by
    rw [List.takeWhile_append_of_pos (List.all_eq_true.1 characters), takeWhile_of_head? ends,
      List.append_nil]
  have arguments := argumentsAt?_eq (front ++ '@' :: qualified) behind
  have stop : ((argumentList? behind).map fun (inside, written, _) =>
      (inside, byteLength (front ++ '@' :: qualified ++ written))).elim
        (byteLength (front ++ '@' :: qualified)) (·.2) =
          byteLength (front ++ '@' :: (qualified ++ writtenArguments behind)) := by
    rw [writtenArguments]
    cases argumentList? behind <;> simp
  have raw := slice?_append front ('@' :: (qualified ++ writtenArguments behind))
    (afterArguments behind)
  rw [List.cons_append, List.append_assoc, writtenArguments_append] at raw
  rw [List.append_assoc, List.cons_append] at arguments
  rw [directiveAt?, sign, text, runEnd_eq ascii_of_isNameChar, name, slice?_append, nameEnd, ← text,
    Option.bind_some, directiveNamed?]
  dsimp only
  split
  · rfl
  · rw [arguments, Option.bind_some, stop, raw]
    rw [Option.map_map, Option.map_some, Option.elim_some, String.toList_ofList]
    rfl

private theorem sightings?_end (cs : List Char) : sightings? cs (byteLength cs) = some [] := by
  rw [sightings?, dif_neg (by rw [length_byteChars]; omega)]

/-- Other characters are passed over, byte by byte. -/
theorem sightings?_plain (front : List Char) {c : Char} (plain : (c == '"' || c == '\'') = false)
    (sign : c ≠ '@') (cs : List Char) : sightings? (front ++ c :: cs) (byteLength front) =
      sightings? (front ++ c :: cs) (byteLength (front ++ [c])) := by
  have step {i : Nat} (inside : i < (byteChars (front ++ c :: cs)).length)
      (other : (byteChars (front ++ c :: cs))[i] ≠ '"' ∧ (byteChars (front ++ c :: cs))[i] ≠ '\'' ∧
        (byteChars (front ++ c :: cs))[i] ≠ '@') :
      sightings? (front ++ c :: cs) i = sightings? (front ++ c :: cs) (i + 1) := by
    conv_lhs => rw [sightings?, dif_pos inside]
    simp [other.1, other.2.1, other.2.2]
  obtain ⟨inside, first⟩ := exists_byte front c cs
  rw [Bool.or_eq_false_iff, beq_eq_false_iff_ne, beq_eq_false_iff_ne] at plain
  rw [step inside ⟨mt (first _ (by decide)).1 plain.1, mt (first _ (by decide)).1 plain.2,
    mt (first _ (by decide)).1 sign⟩]
  exact pass_char front c cs fun i inside wide => step inside
    ⟨ne_of_not_ascii wide (by decide), ne_of_not_ascii wide (by decide),
      ne_of_not_ascii wide (by decide)⟩

private theorem sightings?_quote (front : List Char) {quote : Char}
    (isQuote : (quote == '"' || quote == '\'') = true) (cs : List Char) :
    let stop := byteLength (front ++ quote :: (splitLiteral quote cs).1)
    sightings? (front ++ quote :: cs) (byteLength front) =
      (sightings? (front ++ quote :: cs) stop).map (.literal ⟨byteLength front, stop⟩ :: ·) := by
  obtain ⟨inside, first⟩ := exists_byte front quote cs
  have ascii : quote.toNat < 128 := by
    rw [Bool.or_eq_true, beq_iff_eq, beq_iff_eq] at isQuote
    obtain rfl | rfl := isQuote <;> decide
  have start : byteLength front + 1 = byteLength (front ++ [quote]) := by
    rw [byteLength_append, byteLength_of_ascii (List.forall_mem_singleton.2 ascii)]
    rfl
  have ends := literalEnd_eq ascii (front ++ [quote]) cs
  simp only [List.append_assoc, List.singleton_append] at ends
  intro stop
  rw [sightings?, dif_pos inside, (first quote ascii).2 rfl, if_pos isQuote, start, ends]

private theorem sightings?_sign (front : List Char) {qualified behind : List Char}
    (characters : qualified.all isNameChar = true) (ends : behind.head?.any isNameChar = false) :
    let text := front ++ '@' :: (qualified ++ behind)
    sightings? text (byteLength front) = (directiveNamed? qualified behind).elim
      (sightings? text (byteLength (front ++ '@' :: qualified))) fun d =>
        (sightings? text (byteLength (front ++ d.raw.toList))).map
          (.directive d ⟨byteLength front, byteLength (front ++ d.raw.toList)⟩ :: ·) := by
  intro text
  obtain ⟨inside, first⟩ := exists_byte front '@' (qualified ++ behind)
  have read := directiveAt?_eq front characters ends
  rw [sightings?, dif_pos inside, (first '@' (by decide)).2 rfl, if_neg (by decide),
    if_pos (beq_self_eq_true '@')]
  cases named : directiveNamed? qualified behind with
  | none =>
    rw [named, Option.elim_none] at read
    split
    · rename_i failed
      cases failed.symm.trans read
    · rename_i stop found
      obtain ⟨-, rfl⟩ := Prod.mk.inj (Option.some.inj (found.symm.trans read))
      rfl
    · rename_i d stop found
      cases Option.some.inj (found.symm.trans read)
  | some d =>
    rw [named, Option.elim_some] at read
    split
    · rename_i failed
      cases failed.symm.trans read
    · rename_i stop found
      cases Option.some.inj (found.symm.trans read)
    · rename_i d' stop found
      obtain ⟨same, rfl⟩ := Prod.mk.inj (Option.some.inj (found.symm.trans read))
      obtain rfl := Option.some.inj same
      rfl

/-- Whether a span is that of a literal, up to and with its closing quote, or to the end of the text
if there is none. -/
def IsLiteral (cs : List Char) (span : Span) : Prop :=
  ∃ front quote behind, cs = front ++ quote :: behind ∧ (quote == '"' || quote == '\'') = true ∧
    span = ⟨byteLength front, byteLength (front ++ quote :: (splitLiteral quote behind).1)⟩

/-- What a scan sees of a text behind another one, with the directives that are found there. -/
structure Account (front cs : List Char) (found : List (List Char × Directive))
    (seen : List Sighting) : Prop where
  directives : seen.filterMap Sighting.directive? = spansFrom (byteLength front) found
  literals : ∀ span, .literal span ∈ seen → IsLiteral (front ++ cs) span
  ordered : seen.Pairwise fun a b => a.span.stop ≤ b.span.start
  behind : ∀ s ∈ seen, byteLength front ≤ s.span.start

namespace Account

variable {front gap rest : List Char} {scan : DirectiveScan} {seen : List Sighting}

theorem pass (account : Account (front ++ gap) rest scan.found seen) :
    Account front (gap ++ rest) (scan.prepend gap).found seen where
  directives := by rw [account.directives, spansFrom_prepend, byteLength_append]
  literals := by
    rw [← List.append_assoc]
    exact account.literals
  ordered := account.ordered
  behind s member := by
    have := account.behind s member
    rw [byteLength_append] at this
    omega

/-- What is seen first lies in front of all that is seen behind it. -/
theorem ordered_cons {found : List (List Char × Directive)}
    (account : Account (front ++ gap) rest found seen) (s : Sighting)
    (place : s.span = ⟨byteLength front, byteLength (front ++ gap)⟩) :
    (s :: seen).Pairwise (fun a b => a.span.stop ≤ b.span.start) ∧
      ∀ t ∈ s :: seen, byteLength front ≤ t.span.start := by
  have within : byteLength front ≤ byteLength (front ++ gap) := by
    rw [byteLength_append]
    omega
  constructor
  · refine List.pairwise_cons.2 ⟨fun t member => ?_, account.ordered⟩
    rw [place]
    exact account.behind t member
  · refine List.forall_mem_cons.2 ⟨by rw [place], fun t member => ?_⟩
    exact Nat.le_trans within (account.behind t member)

private theorem literal {quote : Char} {cs : List Char}
    (isQuote : (quote == '"' || quote == '\'') = true)
    (account : Account (front ++ quote :: (splitLiteral quote cs).1) (splitLiteral quote cs).2
      scan.found seen) :
    let stop := byteLength (front ++ quote :: (splitLiteral quote cs).1)
    Account front (quote :: cs) (scan.prepend (quote :: (splitLiteral quote cs).1)).found
      (.literal ⟨byteLength front, stop⟩ :: seen) := by
  have passed := account.pass
  rw [List.cons_append, splitLiteral_append] at passed
  obtain ⟨ordered, behind⟩ := account.ordered_cons (.literal ⟨_, _⟩) rfl
  exact {
    directives := passed.directives
    literals := by
      intro span member
      obtain same | later := List.mem_cons.1 member
      · exact ⟨front, quote, cs, rfl, isQuote, Sighting.literal.inj same⟩
      · exact passed.literals span later
    ordered
    behind }

private theorem found {qualified behind : List Char} {d : Directive}
    (named : directiveNamed? qualified behind = some d)
    (account : Account (front ++ d.raw.toList) (afterArguments behind) scan.found seen) :
    Account front ('@' :: (qualified ++ behind)) (scan.cons d).found
      (.directive d ⟨byteLength front, byteLength (front ++ d.raw.toList)⟩ :: seen) := by
  have text : front ++ d.raw.toList ++ afterArguments behind =
      front ++ '@' :: (qualified ++ behind) := by
    rw [List.append_assoc, raw_eq named, List.cons_append, List.append_assoc,
      writtenArguments_append]
  obtain ⟨ordered, places⟩ := account.ordered_cons (.directive d ⟨_, _⟩) rfl
  exact {
    directives := by
      rw [List.filterMap_cons, spansFrom_cons, ← byteLength_append, account.directives]
      rfl
    literals := by
      intro span member
      obtain same | later := List.mem_cons.1 member
      · cases same
      · exact text ▸ account.literals span later
    ordered
    behind := places }

end Account

/-- A scan of bytes that starts at a character ends, and gives an account of the text behind. -/
theorem exists_account (front cs : List Char) : ∃ seen,
    sightings? (front ++ cs) (byteLength front) = some seen ∧
      Account front cs (of cs).found seen := by
  induction cs using of_induction generalizing front with
  | nil =>
    rw [List.append_nil, of]
    exact ⟨[], sightings?_end front, rfl, fun _ member => absurd member List.not_mem_nil, .nil,
      List.forall_mem_nil _⟩
  | literal quote cs isQuote ih =>
    obtain ⟨seen, run, account⟩ := ih (front ++ quote :: (splitLiteral quote cs).1)
    rw [List.append_assoc, List.cons_append, splitLiteral_append] at run
    refine ⟨_, ?_, account.literal isQuote⟩
    rw [sightings?_quote front isQuote, run]
    rfl
  | refused qualified behind characters ends named ih =>
    obtain ⟨seen, run, account⟩ := ih (front ++ '@' :: qualified)
    rw [List.append_assoc, List.cons_append] at run
    refine ⟨seen, ?_, account.pass⟩
    rw [sightings?_sign front characters ends, named]
    exact run
  | found qualified behind d characters ends named ih =>
    obtain ⟨seen, run, account⟩ := ih (front ++ d.raw.toList)
    rw [List.append_assoc, raw_eq named, List.cons_append, List.append_assoc,
      writtenArguments_append, ← raw_eq named] at run
    refine ⟨_, ?_, account.found named⟩
    rw [sightings?_sign front characters ends, named, Option.elim_some, run]
    rfl
  | other c cs plain sign ih =>
    obtain ⟨seen, run, account⟩ := ih (front ++ [c])
    rw [List.append_assoc, List.singleton_append] at run
    exact ⟨seen, (sightings?_plain front plain sign cs).trans run, account.pass⟩

/-- A scan of bytes ends on every text, and no cut of it is inside of a character. It skips literals
and sees the directives that a scan of characters finds, each behind the one before and apart from
the literals. Each directive has a span at the ends of characters that holds it as it is written,
and is the one that is found in that text alone. Cut at these spans, the text is what the scan
leaves of it. -/
theorem directives_located (cs : List Char) :
    let found := (DirectiveScan.of cs).spans
    (∃ seen, sightings? cs 0 = some seen ∧ seen.filterMap Sighting.directive? = found ∧
      (∀ span, .literal span ∈ seen → IsLiteral cs span) ∧
      seen.Pairwise fun a b => a.span.stop ≤ b.span.start) ∧
    found.map (·.1) = directives cs ∧
    (found.Pairwise fun a b => a.2.stop ≤ b.2.start) ∧
    (∀ d span, (d, span) ∈ found → SoundSpan cs d span) ∧
    blankedAt? cs 0 (found.map (·.2)) = some (DirectiveScan.of cs).blanked := by
  intro found
  obtain ⟨seen, run, account⟩ := exists_account [] cs
  exact ⟨⟨seen, run, account.directives, account.literals, account.ordered⟩, map_fst_spansFrom 0 _,
    pairwise_spansFrom 0 _, fun d span => soundSpan_of_mem, blankedAt?_spans cs⟩

/-- The sign in a literal begins no directive, also behind an escaped character of two bytes, and
neither does the parenthesis in a literal end one. -/
theorem directives_located_literals :
    let text := "\"\\é@Old\" é@a.Size (\")\")@Valid('".toList
    let size : Directive := ⟨"Size", some "\")\"", "@a.Size (\")\")"⟩
    let valid : Directive := ⟨"Valid", none, "@Valid"⟩
    (size, ⟨12, 25⟩) ∈ (DirectiveScan.of text).spans ∧ SoundSpan text size ⟨12, 25⟩ ∧
      (valid, ⟨25, 31⟩) ∈ (DirectiveScan.of text).spans ∧ SoundSpan text valid ⟨25, 31⟩ := by
  intro text size valid
  have first : (size, ⟨12, 25⟩) ∈ (DirectiveScan.of text).spans := by decide +kernel
  have last : (valid, ⟨25, 31⟩) ∈ (DirectiveScan.of text).spans := by decide +kernel
  obtain ⟨-, -, -, sound, -⟩ := directives_located text
  exact ⟨first, sound size _ first, last, sound valid _ last⟩

end ApiCollection.Java.ByteScan
