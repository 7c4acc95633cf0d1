import ApiCollection.Text.Chars

/-!
# Nesting in source text

Brackets and literals decide which separators of a piece of source text count. This module
holds the cutter for separators that stand outside of all brackets, and the matching of
parentheses with literals left aside. Depths are integers without bounds, where 32 bits would
overflow behind more than two thousand million brackets.
-/

namespace ApiCollection.Java

open Text

/-- What the cutter knows at a place of the text. The depth may go below zero. -/
structure Nesting where
  /-- Brackets opened less brackets closed. -/
  depth : Int := 0
  /-- Inside a string literal. -/
  quoted : Bool := false
  /-- Behind a backslash of a string literal. -/
  escaped : Bool := false
  deriving DecidableEq, Repr

namespace Nesting

def step (s : Nesting) (c : Char) : Nesting :=
  if s.quoted then
    if s.escaped then { s with escaped := false }
    else if c == '\\' then { s with escaped := true }
    else if c == '"' then { s with quoted := false }
    else s
  else if c == '"' then { s with quoted := true }
  else if c == '<' || c == '(' || c == '{' then { s with depth := s.depth + 1 }
  else if c == '>' || c == ')' || c == '}' then { s with depth := s.depth - 1 }
  else s

/-- Whether a separator `c` cuts: it stands outside of literals, and the depth behind it is zero. -/
def cuts (s : Nesting) (sep c : Char) : Bool :=
  !s.quoted && c == sep && (s.step c).depth == 0

end Nesting

/-- All pieces between the cutting separators; there is always at least one. -/
def piecesFrom (sep : Char) (s : Nesting) : List Char → List (List Char)
  | [] => [[]]
  | c :: cs =>
    let pieces := piecesFrom sep (s.step c) cs
    if s.cuts sep c then [] :: pieces
    else match pieces with
      | [] => [[c]]
      | piece :: rest => (c :: piece) :: rest

def dropBlankLast (pieces : List (List Char)) : List (List Char) :=
  if pieces.getLast?.any allBlank then pieces.dropLast else pieces

/-- The pieces of a text between separators that are nested in no bracket and no string
literal. A blank last piece is left out. -/
def splitTopLevel (sep : Char) (cs : List Char) : List (List Char) :=
  dropBlankLast (piecesFrom sep {} cs)

theorem piecesFrom_ne_nil (sep : Char) (s : Nesting) (cs : List Char) :
    piecesFrom sep s cs ≠ [] := by
  cases cs with
  | nil => simp [piecesFrom]
  | cons c cs =>
    simp only [piecesFrom]
    split
    · simp
    · split <;> simp

/-- No piece is longer than the text. -/
theorem length_le_of_mem_piecesFrom {sep : Char} {s : Nesting} {cs piece : List Char}
    (h : piece ∈ piecesFrom sep s cs) : piece.length ≤ cs.length := by
  induction cs generalizing s piece with
  | nil => simp [piecesFrom] at h; simp [h]
  | cons c cs ih =>
    simp only [piecesFrom] at h
    split at h
    · rcases List.mem_cons.1 h with rfl | h
      · simp
      · exact Nat.le_succ_of_le (ih h)
    · split at h
      · simp only [List.mem_singleton] at h
        simp [h]
      · rename_i first rest heq
        rcases List.mem_cons.1 h with rfl | h
        · have first_le : first ∈ piecesFrom sep (s.step c) cs := by simp [heq]
          simpa using ih first_le
        · have piece_mem : piece ∈ piecesFrom sep (s.step c) cs := by simp [heq, h]
          exact Nat.le_succ_of_le (ih piece_mem)

theorem mem_of_mem_dropBlankLast {pieces : List (List Char)} {piece : List Char}
    (h : piece ∈ dropBlankLast pieces) : piece ∈ pieces := by
  rw [dropBlankLast] at h
  split at h
  · exact List.dropLast_subset _ h
  · exact h

/-- No piece is longer than the text. -/
theorem length_le_of_mem_splitTopLevel {sep : Char} {cs piece : List Char}
    (h : piece ∈ splitTopLevel sep cs) : piece.length ≤ cs.length :=
  length_le_of_mem_piecesFrom (mem_of_mem_dropBlankLast h)

/-- A string or character literal whose opening quote has been read, up to and with its closing
quote, and the text behind it. A backslash takes the next character with it; a literal that is
never closed reaches to the end. -/
def splitLiteral (quote : Char) : List Char → List Char × List Char
  | [] => ([], [])
  | c :: cs =>
    if c == '\\' then
      match cs with
      | [] => ([c], [])
      | d :: rest => (c :: d :: (splitLiteral quote rest).1, (splitLiteral quote rest).2)
    else if c == quote then ([c], cs)
    else (c :: (splitLiteral quote cs).1, (splitLiteral quote cs).2)

/-- A literal and the text behind it make up the text. -/
theorem splitLiteral_append (quote : Char) (cs : List Char) :
    (splitLiteral quote cs).1 ++ (splitLiteral quote cs).2 = cs := by
  fun_induction splitLiteral quote cs <;> simp_all

theorem length_splitLiteral_le (quote : Char) (cs : List Char) :
    (splitLiteral quote cs).2.length ≤ cs.length := by
  have := congrArg List.length (splitLiteral_append quote cs)
  rw [List.length_append] at this
  omega

/-- Opening less closing parentheses, those in literals left aside. -/
def parenBalance : List Char → Int
  | [] => 0
  | c :: cs =>
    if c == '"' || c == '\'' then parenBalance (splitLiteral c cs).2
    else if c == '(' then parenBalance cs + 1
    else if c == ')' then parenBalance cs - 1
    else parenBalance cs
termination_by cs => cs.length
decreasing_by
  all_goals
    have := length_splitLiteral_le c cs
    simp only [List.length_cons]
    omega

/-- Where the search for a closing parenthesis stands. -/
structure ParenSearch where
  /-- Parentheses opened and not closed. -/
  depth : Int := 0
  /-- The quote of the literal that is open. -/
  literal : Option Char := none
  /-- Behind a backslash of a literal. -/
  escaped : Bool := false
  deriving DecidableEq, Repr

/-- The text up to the parenthesis that closes depth one, and the text behind it. -/
def ParenSearch.close? (s : ParenSearch) : List Char → Option (List Char × List Char)
  | [] => none
  | c :: cs =>
    let next (s : ParenSearch) := (s.close? cs).map fun (inside, rest) => (c :: inside, rest)
    match s.literal with
    | some quote =>
      if s.escaped then next { s with escaped := false }
      else if c == '\\' then next { s with escaped := true }
      else if c == quote then next { s with literal := none }
      else next s
    | none =>
      if c == '"' || c == '\'' then next { s with literal := some c }
      else if c == '(' then next { s with depth := s.depth + 1 }
      else if c == ')' then
        if s.depth == 1 then some ([], cs) else next { s with depth := s.depth - 1 }
      else next s

/-- For a text that follows an opening parenthesis: what stands between it and its closing
parenthesis, and what follows that one. -/
def insideParens? (cs : List Char) : Option (List Char × List Char) :=
  ParenSearch.close? { depth := 1 } cs

theorem ParenSearch.eq_append_of_close? {s : ParenSearch} {cs inside rest : List Char}
    (h : s.close? cs = some (inside, rest)) : cs = inside ++ ')' :: rest := by
  induction cs generalizing s inside with
  | nil => simp [ParenSearch.close?] at h
  | cons c cs ih =>
    have step {t : ParenSearch}
        (ht : (t.close? cs).map (fun p => (c :: p.1, p.2)) = some (inside, rest)) :
        c :: cs = inside ++ ')' :: rest := by
      obtain ⟨⟨i, r⟩, hi, he⟩ := Option.map_eq_some_iff.1 ht
      simp only [Prod.mk.injEq] at he
      obtain ⟨rfl, rfl⟩ := he
      simp [ih hi]
    simp only [ParenSearch.close?] at h
    split at h
    · split at h
      · exact step h
      · split at h
        · exact step h
        · split at h <;> exact step h
    · split at h
      · exact step h
      · split at h
        · exact step h
        · split at h
          · rename_i hc
            split at h
            · simp only [Option.some.injEq, Prod.mk.injEq] at h
              obtain ⟨rfl, rfl⟩ := h
              simp [beq_iff_eq.1 hc]
            · exact step h
          · exact step h

/-- The text is the inside, the closing parenthesis and the rest. -/
theorem eq_append_of_insideParens? {cs inside rest : List Char}
    (h : insideParens? cs = some (inside, rest)) : cs = inside ++ ')' :: rest :=
  ParenSearch.eq_append_of_close? h

end ApiCollection.Java
