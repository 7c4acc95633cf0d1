import ApiCollection.Proofs.ByteOffsets
import ApiCollection.Proofs.ParenStates
import Mathlib.Order.Bounds.Basic

/-!
# Closing parentheses

The search for a closing parenthesis ends where the balance of parentheses first comes to zero. The
search keeps flags for the literal it is in, and the balance skips each literal as a whole; both see
the same parentheses in every text, also where a literal or an escape is cut off by its end.
-/

namespace ApiCollection.Java

open Text

namespace ParenSearch

/-- A search that finds nothing leaves the parenthesis open. -/
theorem staysOpen_of_close?_eq_none {s : ParenSearch} {cs : List Char} (h : s.close? cs = none) :
    s.staysOpen cs = true := by
  induction cs generalizing s with
  | nil => rfl
  | cons c cs ih =>
    rw [close?_cons] at h
    split at h
    · cases h
    · rename_i open'
      rw [staysOpen, ih (Option.map_eq_none_iff.1 h), eq_false_of_ne_true open']
      rfl

/-- While the parenthesis in front of a text stays open, the balance is positive. -/
theorem parenBalance_pos {front cs : List Char} (h : staysOpen { depth := 1 } cs = true)
    (start : front <+: cs) : 0 < parenBalance ('(' :: front) := by
  obtain ⟨back, rfl⟩ := start
  rw [staysOpen_append, Bool.and_eq_true] at h
  rw [parenBalance_eq]
  change 0 < (run { depth := 1 } front).depth
  exact depth_pos h.1 Int.one_pos

end ParenSearch

variable {cs inside rest : List Char}

private theorem parenBalance_of_insideParens? (h : insideParens? cs = some (inside, rest)) :
    parenBalance ('(' :: (inside ++ [')'])) = 0 ∧
      ∀ front, front <+: inside → 0 < parenBalance ('(' :: front) := by
  obtain ⟨stays, closes⟩ := ParenSearch.staysOpen_of_close? h
  obtain ⟨outside, -, depth⟩ := ParenSearch.of_closes closes
  refine ⟨?_, fun front => ParenSearch.parenBalance_pos stays⟩
  rw [ParenSearch.parenBalance_eq, ParenSearch.run_cons, ParenSearch.run_append]
  change ((ParenSearch.run { depth := 1 } inside).step ')').depth = 0
  rw [(ParenSearch.step_paren outside).2]
  change (ParenSearch.run { depth := 1 } inside).depth + -1 = 0
  rw [depth]
  rfl

/-- The offset of the parenthesis that closes the one at an offset. -/
def closingParen? (start : Nat) (cs : List Char) : Option Nat :=
  match cutAtOffset? start cs with
  | some (_, '(' :: behind) => (insideParens? behind).map fun (inside, _) =>
    start + 1 + byteLength inside
  | _ => none

theorem closingParen?_append (front behind : List Char) :
    closingParen? (byteLength front) (front ++ '(' :: behind) =
      (insideParens? behind).map fun (inside, _) => byteLength front + 1 + byteLength inside := by
  rw [closingParen?, cutAtOffset?_eq_some_iff.2 ⟨rfl, rfl⟩]
  rfl

/-- The offsets behind a place at which the text from there on is balanced. -/
def balancedStops (start : Nat) (cs : List Char) : Set Nat :=
  {stop | start < stop ∧ ∃ piece, slice? start stop cs = some piece ∧ parenBalance piece = 0}

/-- A text from a parenthesis on is that parenthesis and a start of what is behind it. -/
theorem exists_of_slice?_paren {front behind piece : List Char} {stop : Nat}
    (h : slice? (byteLength front) stop (front ++ '(' :: behind) = some piece)
    (longer : byteLength front < stop) : ∃ read, piece = '(' :: read ∧ read <+: behind ∧
      stop = byteLength front + 1 + byteLength read := by
  obtain ⟨front', back, same, place, rfl⟩ := slice?_eq_some_iff.1 h
  obtain ⟨rfl, behindPlace⟩ := append_inj_of_byteLength same place.symm
  cases piece with
  | nil =>
    rw [List.append_nil] at longer
    exact absurd longer (Nat.lt_irrefl _)
  | cons c read =>
    obtain ⟨rfl, rfl⟩ := List.cons_eq_cons.1 behindPlace
    refine ⟨read, rfl, List.prefix_append read back, ?_⟩
    rw [byteLength_append, byteLength, Nat.add_assoc]
    rfl

/-- Nothing is balanced while the parenthesis stays open. -/
theorem parenBalance_pos_of_unclosed {front behind piece : List Char} {stop : Nat}
    (unclosed : insideParens? behind = none)
    (h : slice? (byteLength front) stop (front ++ '(' :: behind) = some piece)
    (longer : byteLength front < stop) : 0 < parenBalance piece := by
  obtain ⟨read, rfl, start, -⟩ := exists_of_slice?_paren h longer
  exact ParenSearch.parenBalance_pos (ParenSearch.staysOpen_of_close?_eq_none unclosed) start

private theorem isLeast_of_insideParens? (front : List Char) {behind : List Char}
    (h : insideParens? behind = some (inside, rest)) :
    IsLeast (balancedStops (byteLength front) (front ++ '(' :: behind))
      (byteLength front + 1 + byteLength inside + 1) := by
  obtain ⟨balanced, positive⟩ := parenBalance_of_insideParens? h
  obtain rfl := eq_append_of_insideParens? h
  constructor
  · refine ⟨by omega, '(' :: (inside ++ [')']), slice?_eq_some_iff.2 ⟨front, rest, ?_, rfl, ?_⟩,
      balanced⟩
    · simp
    · rw [byteLength_append, byteLength, byteLength_append]
      change byteLength front + (1 + (byteLength inside + 1)) = _
      omega
  · rintro stop ⟨longer, piece, sliced, zero⟩
    obtain ⟨read, rfl, start, rfl⟩ := exists_of_slice?_paren sliced longer
    by_contra shorter
    have early : read <+: inside :=
      prefix_of_byteLength_le start (List.prefix_append inside (')' :: rest)) (by omega)
    exact absurd zero (Int.ne_of_gt (positive read early))

/-- The parenthesis that closes the one at an offset is the last character of the first text from
there on that is balanced. There is none exactly when each text from there on opens more parentheses
than it closes. -/
theorem closingParen?_iff {start : Nat}
    (paren : slice? start (start + 1) cs = some ['(']) :
    (∀ close, closingParen? start cs = some close ↔ IsLeast (balancedStops start cs) (close + 1)) ∧
    (closingParen? start cs = none ↔
      ∀ stop piece, start < stop → slice? start stop cs = some piece → 0 < parenBalance piece) := by
  obtain ⟨front, behind, rfl, rfl, -⟩ := slice?_eq_some_iff.1 paren
  rw [List.singleton_append, closingParen?_append]
  cases found : insideParens? behind with
  | none =>
    have positive : ∀ stop piece, byteLength front < stop →
        slice? (byteLength front) stop (front ++ '(' :: behind) = some piece →
          0 < parenBalance piece :=
      fun stop piece longer sliced => parenBalance_pos_of_unclosed found sliced longer
    refine ⟨fun close => iff_of_false nofun ?_, iff_of_true rfl positive⟩
    rintro ⟨⟨longer, piece, sliced, zero⟩, -⟩
    exact absurd zero (Int.ne_of_gt (positive _ piece longer sliced))
  | some parts =>
    obtain ⟨inside, rest⟩ := parts
    have least := isLeast_of_insideParens? front found
    constructor
    · intro close
      rw [Option.map_some, Option.some.injEq]
      exact ⟨fun same => same ▸ least, fun least' => Nat.succ.inj (least.unique least')⟩
    · refine iff_of_false nofun fun positive => ?_
      obtain ⟨longer, piece, sliced, zero⟩ := least.1
      exact absurd zero (Int.ne_of_gt (positive _ piece longer sliced))

/-- The parentheses in literals are passed over, and so is all behind a literal without an end. -/
theorem closingParen?_literals :
    let closed := "é(\"é)\\\"\", ')') x".toList
    let unclosed := "(a, \")\\".toList
    (slice? 2 3 closed = some ['('] ∧ closingParen? 2 closed = some 15 ∧
      IsLeast (balancedStops 2 closed) 16) ∧
    slice? 0 1 unclosed = some ['('] ∧ closingParen? 0 unclosed = none ∧
      ∀ stop piece, 0 < stop → slice? 0 stop unclosed = some piece → 0 < parenBalance piece := by
  intro closed unclosed
  have paren : slice? 2 3 closed = some ['('] := by decide
  have paren' : slice? 0 1 unclosed = some ['('] := by decide
  have found : closingParen? 2 closed = some 15 := by decide
  have missing : closingParen? 0 unclosed = none := by decide
  exact ⟨⟨paren, found, ((closingParen?_iff paren).1 15).1 found⟩, paren', missing,
    (closingParen?_iff paren').2.1 missing⟩

end ApiCollection.Java
