import ApiCollection.Pattern.Glob

/-!
# The language of a glob pattern

A glob pattern that has no other signs of the expression language is read as one expression for each
of its pieces, one behind the other. The texts that these match are those that the pattern
describes, character by character.
-/

namespace ApiCollection.Pattern

open Text

/-- The texts that a glob pattern describes, read from left to right. -/
inductive Describes : List Char → List Char → Prop where
  | nil : Describes [] []
  | anything {pattern text : List Char} (piece : List Char) (rest : Describes pattern text) :
      Describes ('*' :: '*' :: pattern) (piece ++ text)
  | withinSegment {pattern piece text : List Char} (single : pattern.head? ≠ some '*')
      (inside : '/' ∉ piece) (rest : Describes pattern text) :
      Describes ('*' :: pattern) (piece ++ text)
  | char {c : Char} {pattern text : List Char} (other : c ≠ '*') (rest : Describes pattern text) :
      Describes (c :: pattern) (c :: text)

/-- The characters that stand for something else in an expression, but for full stops and stars. -/
def expressionSigns : List Char := ['\\', '+', '?', '(', ')', '|', '[', '\x7b', '^', '$']

namespace GlobToken

def Matches : GlobToken → List Char → Prop
  | anything, _ => True
  | withinSegment, text => '/' ∉ text
  | char c, text => text = [c]

/-- The texts that pieces stand for, one behind the other. -/
def MatchInOrder : List GlobToken → List Char → Prop
  | [], text => text = []
  | t :: ts, text => ∃ front back, text = front ++ back ∧ t.Matches front ∧ MatchInOrder ts back

end GlobToken

/-- What a pattern describes is what its pieces stand for. -/
theorem describes_iff {pattern text : List Char} :
    Describes pattern text ↔ GlobToken.MatchInOrder (globTokens pattern) text := by
  constructor
  · intro described
    induction described with
    | nil => rfl
    | anything piece rest ih => exact ⟨piece, _, rfl, trivial, ih⟩
    | @withinSegment pattern piece text single inside rest ih =>
      have first : globTokens ('*' :: pattern) = .withinSegment :: globTokens pattern := by
        rw [globTokens]
        rintro pattern rfl
        exact single rfl
      rw [first]
      exact ⟨piece, text, rfl, inside, ih⟩
    | @char c pattern text other rest ih =>
      have first : globTokens (c :: pattern) = .char c :: globTokens pattern := by
        rw [globTokens]
        · rintro _ rfl
          exact absurd rfl other
        · rintro rfl
          exact absurd rfl other
      rw [first]
      exact ⟨[c], text, rfl, rfl, ih⟩
  · fun_induction globTokens pattern generalizing text with
    | case1 rest ih =>
      rintro ⟨piece, text, rfl, -, later⟩
      exact .anything piece (ih later)
    | case2 rest single ih =>
      rintro ⟨piece, text, rfl, inside, later⟩
      refine .withinSegment ?_ inside (ih later)
      intro star
      obtain ⟨rest, rfl⟩ := List.head?_eq_some_iff.1 star
      exact single rest rfl
    | case3 c rest _ other ih =>
      rintro ⟨piece, text, rfl, rfl, later⟩
      exact .char (fun star => other star) (ih later)
    | case4 =>
      rintro rfl
      exact .nil

def Fits (text : List Char) (set : CharSet) (p : Nat) : Prop :=
  ∃ c, text[p]? = some c ∧ set c = true

section Positions

variable {text : List Char} {set : CharSet} {starts : List Nat} {p : Nat}

/-- When adding positions adds none, they are all known. -/
theorem subset_of_length_addPositions {known new : List Nat}
    (same : (addPositions known new).length = known.length) : new ⊆ known := by
  rw [addPositions, List.length_append, Nat.add_eq_left, List.length_eq_zero_iff,
    List.filter_eq_nil_iff] at same
  intro q member
  simpa using same q member

theorem mem_after_char_iff {known : List Nat} :
    p ∈ (Expression.char set).after text.toArray known ↔
      ∃ start ∈ known, Fits text set start ∧ p = start + 1 := by
  rw [Expression.mem_after_char]
  simp only [List.getElem?_toArray, Fits]

private theorem fits_succ_iff {start n : Nat} : (∀ i < n + 1, Fits text set (start + i)) ↔
    Fits text set start ∧ ∀ i < n, Fits text set (start + 1 + i) := by
  rw [Nat.forall_lt_succ_left, Nat.add_zero]
  simp only [Nat.add_assoc, Nat.add_comm 1]

/-- What one character leads no further from is not left over any number of them. -/
theorem mem_of_closed {known : List Nat}
    (closed : (Expression.char set).after text.toArray known ⊆ known) {start n : Nat}
    (member : start ∈ known) (fits : ∀ i < n, Fits text set (start + i)) : start + n ∈ known := by
  induction n with
  | zero => exact member
  | succ n ih =>
    have before := ih fun i less => fits i (by omega)
    exact closed (mem_after_char_iff.2 ⟨start + n, before, fits n (by omega), rfl⟩)

/-- Rounds of one character lead over characters of its set. -/
theorem mem_reach_char (rounds : Nat) :
    p ∈ reach ((Expression.char set).after text.toArray) rounds starts ↔
      ∃ start ∈ starts, ∃ n ≤ rounds, p = start + n ∧ ∀ i < n, Fits text set (start + i) := by
  induction rounds generalizing starts with
  | zero =>
    simp only [reach, Nat.le_zero]
    constructor
    · exact fun member => ⟨p, member, 0, rfl, rfl, nofun⟩
    · rintro ⟨start, member, n, rfl, rfl, -⟩
      exact member
  | succ rounds ih =>
    rw [reach]
    split
    · rename_i same
      -- no position is new, so that the rounds that are left stay among the known ones
      have closed := subset_of_length_addPositions (beq_iff_eq.1 same)
      constructor
      · exact fun member => ⟨p, member, 0, Nat.zero_le _, rfl, nofun⟩
      · rintro ⟨start, member, n, -, rfl, fits⟩
        exact mem_of_closed closed member fits
    · refine ih.trans ?_
      constructor
      · rintro ⟨start, member, n, bound, rfl, fits⟩
        obtain known | new := mem_addPositions.1 member
        · exact ⟨start, known, n, by omega, rfl, fits⟩
        · obtain ⟨before, known, first, rfl⟩ := mem_after_char_iff.1 new
          exact ⟨before, known, n + 1, by omega, by omega, fits_succ_iff.2 ⟨first, fits⟩⟩
      · rintro ⟨start, known, n, bound, rfl, fits⟩
        cases n with
        | zero => exact ⟨start, mem_addPositions.2 (.inl known), 0, Nat.zero_le _, rfl, nofun⟩
        | succ n =>
          obtain ⟨first, later⟩ := fits_succ_iff.1 fits
          have new : start + 1 ∈ (Expression.char set).after text.toArray starts :=
            mem_after_char_iff.2 ⟨start, known, first, rfl⟩
          exact ⟨start + 1, mem_addPositions.2 (.inr new), n, by omega, by omega, later⟩

/-- The positions that follow one another in a set are a piece of its characters. -/
theorem fits_iff_begins {start n : Nat} (h : start ≤ text.length) :
    (∀ i < n, Fits text set (start + i)) ↔
      ∃ piece, piece <+: text.drop start ∧ piece.length = n ∧ ∀ c ∈ piece, set c = true := by
  constructor
  · intro fits
    have room : n ≤ (text.drop start).length := by
      rw [List.length_drop]
      refine Nat.le_of_not_lt fun short => ?_
      obtain ⟨c, here, -⟩ := fits (text.length - start) short
      rw [List.getElem?_eq_none (by omega)] at here
      cases here
    refine ⟨(text.drop start).take n, List.take_prefix _ _, List.length_take_of_le room, ?_⟩
    intro c member
    obtain ⟨i, less, rfl⟩ := List.mem_iff_getElem.1 member
    rw [List.length_take] at less
    obtain ⟨c, here, inside⟩ := fits i (by omega)
    rw [List.getElem_take, List.getElem_drop]
    rwa [List.getElem?_eq_some_iff.1 here |>.2]
  · rintro ⟨piece, begins, rfl, inside⟩ i less
    obtain ⟨back, split⟩ := begins
    refine ⟨piece[i], ?_, inside _ (List.getElem_mem less)⟩
    rw [← List.getElem?_drop, ← split, List.getElem?_append_left less,
      List.getElem?_eq_getElem less]

/-- A repeated set matches the pieces that consist of its characters. -/
theorem mem_after_repeated (bounded : ∀ start ∈ starts, start ≤ text.length) :
    p ∈ (Expression.times (.char set) 0 none).after text.toArray starts ↔
      ∃ start ∈ starts, ∃ piece, piece <+: text.drop start ∧ (∀ c ∈ piece, set c = true) ∧
        p = start + piece.length := by
  have reached : p ∈ (Expression.times (.char set) 0 none).after text.toArray starts ↔
      p ∈ reach ((Expression.char set).after text.toArray) (text.length + 1) starts := by
    simp only [Expression.after, Nat.zero_min, repeated, Option.elim_none, List.size_toArray]
  rw [reached, mem_reach_char]
  constructor
  · rintro ⟨start, member, n, -, rfl, fits⟩
    obtain ⟨piece, begins, rfl, inside⟩ := (fits_iff_begins (bounded start member)).1 fits
    exact ⟨start, member, piece, begins, inside, rfl⟩
  · rintro ⟨start, member, piece, begins, inside, rfl⟩
    refine ⟨start, member, piece.length, ?_, rfl,
      (fits_iff_begins (bounded start member)).2 ⟨piece, begins, rfl, inside⟩⟩
    have room := begins.length_le
    rw [List.length_drop] at room
    omega

private theorem mem_after_one (c : Char) :
    p ∈ (Expression.char (.one c)).after text.toArray starts ↔
    ∃ start ∈ starts, [c] <+: text.drop start ∧ p = start + 1 := by
  rw [Expression.mem_after_char]
  refine exists_congr fun start => and_congr_right fun _ => and_congr_left fun _ => ?_
  rw [List.singleton_prefix_iff_head?_eq_some, List.head?_drop]
  simp only [List.getElem?_toArray, CharSet.one, beq_iff_eq, exists_eq_right]

end Positions

namespace GlobToken

def expression : GlobToken → Expression
  | anything => .times (.char (CharSet.one '\n').compl) 0 none
  | withinSegment => .times (.char (CharSet.none.union (.one '/')).compl) 0 none
  | char c => .char (.one c)

variable {text : List Char} (line : '\n' ∉ text) {starts : List Nat} {p : Nat}

include line

/-- The expression of a piece matches what the piece stands for. -/
theorem mem_after (t : GlobToken) (bounded : ∀ start ∈ starts, start ≤ text.length) :
    p ∈ t.expression.after text.toArray starts ↔ ∃ start ∈ starts, ∃ piece,
      piece <+: text.drop start ∧ t.Matches piece ∧ p = start + piece.length := by
  cases t with
  | anything =>
    rw [expression, mem_after_repeated bounded]
    refine exists_congr fun start => and_congr_right fun _ => exists_congr fun piece =>
      and_congr_right fun begins => and_congr_left fun _ => iff_of_true ?_ trivial
    intro c member
    have other : c ≠ '\n' := by
      rintro rfl
      exact line (List.mem_of_mem_drop (begins.subset member))
    simpa [CharSet.compl, CharSet.one] using other
  | withinSegment =>
    rw [expression, mem_after_repeated bounded]
    refine exists_congr fun start => and_congr_right fun _ => exists_congr fun piece =>
      and_congr_right fun _ => and_congr_left fun _ => ?_
    simp only [CharSet.compl, CharSet.union, CharSet.none, CharSet.one, Bool.false_or, Matches]
    constructor
    · exact fun inside member => by simpa using inside '/' member
    · intro inside c member
      have other : c ≠ '/' := by
        rintro rfl
        exact inside member
      simpa using other
  | char c =>
    rw [expression, mem_after_one]
    refine exists_congr fun start => and_congr_right fun _ => ?_
    constructor
    · rintro ⟨begins, rfl⟩
      exact ⟨[c], begins, rfl, rfl⟩
    · rintro ⟨piece, begins, rfl, rfl⟩
      exact ⟨begins, rfl⟩

omit line in
private theorem after_sequence_cons (text : Array Char) (e : Expression) (es : List Expression)
    (starts : List Nat) : (Expression.sequence (e :: es)).after text starts =
      (Expression.sequence es).after text (e.after text starts) := by
  cases es with
  | nil => rfl
  | cons e' es => rfl

/-- The expressions of some pieces match, one behind the other, what the pieces stand for. -/
theorem mem_after_sequence (ts : List GlobToken) (bounded : ∀ start ∈ starts, start ≤ text.length) :
    p ∈ (Expression.sequence (ts.map expression)).after text.toArray starts ↔ ∃ start ∈ starts,
      ∃ piece, piece <+: text.drop start ∧ MatchInOrder ts piece ∧ p = start + piece.length := by
  induction ts generalizing starts with
  | nil =>
    constructor
    · exact fun member => ⟨p, member, [], List.nil_prefix, rfl, rfl⟩
    · rintro ⟨start, member, piece, -, rfl, rfl⟩
      exact member
  | cons t ts ih =>
    have first (q : Nat) := mem_after line (p := q) t bounded
    rw [List.map_cons, after_sequence_cons, ih]
    · constructor
      · rintro ⟨middle, member, back, begins, matches', rfl⟩
        obtain ⟨start, known, front, begins', matched, rfl⟩ := (first middle).1 member
        obtain ⟨rest, split⟩ := begins'
        rw [← List.drop_drop, ← split, List.drop_left] at begins
        refine ⟨start, known, front ++ back, ?_, ⟨front, back, rfl, matched, matches'⟩, ?_⟩
        · rw [← split]
          exact (List.prefix_append_right_inj front).2 begins
        · rw [List.length_append, Nat.add_assoc]
      · rintro ⟨start, known, _, begins, ⟨front, back, rfl, matched, matches'⟩, rfl⟩
        refine ⟨start + front.length, (first _).2 ⟨start, known, front,
          (List.prefix_append front back).trans begins, matched, rfl⟩, back, ?_, matches', ?_⟩
        · obtain ⟨rest, split⟩ := begins
          rw [← List.drop_drop, ← split, List.append_assoc, List.drop_left]
          exact List.prefix_append back rest
        · rw [List.length_append, Nat.add_assoc]
    · intro middle member
      obtain ⟨start, known, front, begins, -, rfl⟩ := (first middle).1 member
      have room := begins.length_le
      rw [List.length_drop] at room
      have := bounded start known
      omega

end GlobToken

/-- A character that is no sign stands for itself. -/
theorem step?_plain {c : Char} (plain : c ∉ '.' :: '*' :: expressionSigns)
    (parts : List (Option Expression)) (rest : List Char) :
    ReaderState.step? { group := { parts := parts } } c rest =
      some ({ group := { parts := some (.char (.one c)) :: parts } }, rest) := by
  simp only [expressionSigns, List.mem_cons, List.not_mem_nil, or_false, not_or] at plain
  unfold ReaderState.step?
  split
  case h_13 => rfl
  all_goals simp at plain

private theorem mem_globTokens {c : Char} {pattern : List Char} (h : .char c ∈ globTokens pattern) :
    c ∈ pattern ∧ c ≠ '*' := by
  fun_induction globTokens pattern with
  | case1 rest ih =>
    obtain ⟨member, other⟩ := ih (by simpa using h)
    exact ⟨by simp [member], other⟩
  | case2 rest _ ih =>
    obtain ⟨member, other⟩ := ih (by simpa using h)
    exact ⟨by simp [member], other⟩
  | case3 d rest _ other ih =>
    obtain same | later := List.mem_cons.1 h
    · cases same
      exact ⟨List.mem_cons_self, fun star => other star⟩
    · exact ⟨List.mem_cons_of_mem d (ih later).1, (ih later).2⟩
  | case4 => cases h

def Plain (ts : List GlobToken) : Prop := ∀ c, .char c ∈ ts → c ∉ '*' :: expressionSigns

theorem Plain.tail {t : GlobToken} {ts : List GlobToken} (plain : Plain (t :: ts)) : Plain ts :=
  fun c member => plain c (List.mem_cons_of_mem t member)

theorem GlobToken.source_char {c : Char} (other : c ≠ '.') : (char c).source = [c] := by
  rw [source]
  exact other

/-- The source of a pattern asks for no lazy repetition. -/
theorem skipLazy_source {ts : List GlobToken} (plain : Plain ts) :
    ReaderState.skipLazy (ts.flatMap GlobToken.source) = ts.flatMap GlobToken.source := by
  have head : (ts.flatMap GlobToken.source).head? ≠ some '?' := by
    cases ts with
    | nil => exact (nomatch ·)
    | cons t ts =>
      rw [List.flatMap_cons]
      cases t with
      | anything => exact ne_of_beq_false rfl
      | withinSegment => exact ne_of_beq_false rfl
      | char c =>
        by_cases stop : c = '.'
        · rw [stop]
          exact ne_of_beq_false rfl
        · rw [GlobToken.source_char stop]
          intro mark
          obtain rfl := Option.some.inj mark
          exact plain '?' List.mem_cons_self (by decide)
  rw [ReaderState.skipLazy]
  rintro rest same
  rw [same] at head
  exact head rfl

/-- The source of a piece is read as its expression, in no more rounds than it has characters. -/
theorem run?_piece {t : GlobToken} {ts : List GlobToken} (plain : Plain (t :: ts))
    (parts : List (Option Expression)) : ∃ k ≤ t.source.length, ∀ m,
      ReaderState.run? (m + k) { group := { parts := parts } }
          ((t :: ts).flatMap GlobToken.source) =
        ReaderState.run? m { group := { parts := some t.expression :: parts } }
          (ts.flatMap GlobToken.source) := by
  have lazy := skipLazy_source plain.tail
  rw [List.flatMap_cons]
  cases t with
  | anything =>
    refine ⟨2, by decide, fun m => ?_⟩
    exact Eq.trans rfl (congrArg (ReaderState.run? m _) lazy)
  | withinSegment =>
    refine ⟨2, by decide, fun m => ?_⟩
    exact Eq.trans rfl (congrArg (ReaderState.run? m _) lazy)
  | char c =>
    by_cases stop : c = '.'
    · subst stop
      exact ⟨1, by decide, fun m => rfl⟩
    · have sign : c ∉ '.' :: '*' :: expressionSigns :=
        List.not_mem_cons_of_ne_of_not_mem stop (plain c List.mem_cons_self)
      rw [GlobToken.source_char stop]
      refine ⟨1, Nat.le_refl 1, fun m => ?_⟩
      have step := step?_plain sign parts (ts.flatMap GlobToken.source)
      change (ReaderState.step? _ c (ts.flatMap GlobToken.source)).bind
        (fun found => ReaderState.run? m found.1 found.2) = _
      rw [step]
      rfl

/-- The source of some pieces is read as their expressions, behind what has been read before. -/
theorem run?_source {ts : List GlobToken} (plain : Plain ts) {n : Nat}
    (enough : (ts.flatMap GlobToken.source).length < n) (parts : List (Option Expression)) :
    ReaderState.run? n { group := { parts := parts } } (ts.flatMap GlobToken.source) =
      some (.sequence (parts.reverse.filterMap id ++ ts.map GlobToken.expression)) := by
  induction ts generalizing n parts with
  | nil =>
    obtain ⟨m, rfl⟩ := Nat.exists_eq_add_of_lt enough
    rw [List.map_nil, List.append_nil]
    rfl
  | cons t ts ih =>
    obtain ⟨k, few, run⟩ := run?_piece plain parts
    rw [List.flatMap_cons, List.length_append] at enough
    obtain ⟨m, rfl⟩ : ∃ m, n = m + k := ⟨n - k, by omega⟩
    rw [run, ih plain.tail (by omega), List.reverse_cons, List.filterMap_append, List.append_assoc]
    rfl

/-- A pattern without other signs of expressions is read as the expressions of its pieces. -/
theorem globExpression?_eq {pattern : String} (plain : ∀ c ∈ pattern.toList, c ∉ expressionSigns) :
    globExpression? pattern =
      some (.sequence ((globTokens pattern.toList).map GlobToken.expression)) := by
  have tokens : Plain (globTokens pattern.toList) := by
    intro c member
    obtain ⟨inside, other⟩ := mem_globTokens member
    exact List.not_mem_cons_of_ne_of_not_mem other (plain c inside)
  exact run?_source tokens (Nat.lt_succ_self _) []

/-- A pattern without other signs of expressions matches a path on one line exactly when it
describes some piece of the path. -/
theorem globMatches_iff {pattern path : String}
    (plain : ∀ c ∈ pattern.toList, c ∉ expressionSigns) (line : '\n' ∉ path.toList) :
    globMatches pattern path = true ↔
      ∃ piece, piece <:+: slashed path ∧ Describes pattern.toList piece := by
  have line' : '\n' ∉ slashed path := by
    intro member
    obtain ⟨c, inside, same⟩ := List.mem_map.1 member
    split at same
    · exact absurd same (by decide)
    · exact line (same ▸ inside)
  have found : globMatches pattern path = true ↔ ∃ p, p ∈ (Expression.sequence
      ((globTokens pattern.toList).map GlobToken.expression)).after (slashed path).toArray
        (List.range ((slashed path).length + 1)) := by
    rw [globMatches, globExpression?_eq plain, Option.any_some, Expression.matchesIn,
      Bool.not_eq_true', List.isEmpty_eq_false_iff_exists_mem]
  have bounded : ∀ start ∈ List.range ((slashed path).length + 1), start ≤ (slashed path).length :=
    fun start member => Nat.le_of_lt_succ (List.mem_range.1 member)
  rw [found]
  simp only [GlobToken.mem_after_sequence line' _ bounded, ← describes_iff]
  constructor
  · rintro ⟨-, start, -, piece, begins, described, -⟩
    exact ⟨piece, begins.isInfix.trans (List.drop_suffix start _).isInfix, described⟩
  · rintro ⟨piece, ⟨front, back, split⟩, described⟩
    refine ⟨front.length + piece.length, front.length, ?_, piece, ⟨back, ?_⟩, described, rfl⟩
    · rw [List.mem_range, ← split, List.length_append, List.length_append]
      omega
    · rw [← split, List.append_assoc, List.drop_left]

/-- Two stars reach over slashes, a third one stays within a segment, and a full stop is one. -/
theorem describes_adminFile : (∀ c ∈ "***/admin/*.java".toList, c ∉ expressionSigns) ∧
    '\n' ∉ "src\\web\\admin\\User.java".toList ∧
    ∃ piece, piece <:+: slashed "src\\web\\admin\\User.java" ∧
      Describes "***/admin/*.java".toList piece := by
  have signs : "***/admin/*.java".toList.all (fun c => !expressionSigns.contains c) = true := by
    decide
  have plain : ∀ c ∈ "***/admin/*.java".toList, c ∉ expressionSigns := by
    intro c member
    simpa using List.all_eq_true.1 signs c member
  exact ⟨plain, by decide, (globMatches_iff plain (by decide)).1 (by decide +kernel)⟩

end ApiCollection.Pattern
