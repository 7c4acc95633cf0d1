import ApiCollection.Proofs.TopLevelPieces

/-!
# Cuts that lose nothing

Behind a separator that cuts, the cutter knows what it knows at the start of a text. So each piece
is cut as it is cut alone, which is not at all, and the pieces with the separators between them are
the text, but for a blank last piece.
-/

namespace ApiCollection.Java

open Text

namespace Nesting

variable {sep : Char} {s : Nesting}

def Legal (s : Nesting) : Prop := s.quoted = false → s.escaped = false

theorem step_outside {c : Char} (outside : s.quoted = false) (quote : c ≠ '"') :
    (s.step c).quoted = false ∧ (s.step c).escaped = s.escaped := by
  rw [step, if_neg (ne_true_of_eq_false outside), if_neg (by simpa using quote)]
  split
  · exact ⟨outside, rfl⟩
  · split
    · exact ⟨outside, rfl⟩
    · exact ⟨outside, rfl⟩

theorem legal_start : Legal {} := fun _ => rfl

theorem legal_step (legal : s.Legal) (c : Char) : (s.step c).Legal := by
  intro outside
  cases quoted : s.quoted with
  | true =>
    rw [step, if_pos quoted] at outside ⊢
    split at outside
    · exact absurd (quoted.symm.trans outside) (by decide)
    · rename_i escaped
      rw [if_neg escaped]
      split at outside
      · exact absurd (quoted.symm.trans outside) (by decide)
      · rename_i backslash
        rw [if_neg backslash]
        split <;> exact eq_false_of_ne_true escaped
  | false =>
    by_cases quote : c = '"'
    · subst quote
      rw [step, if_neg (ne_true_of_eq_false quoted)] at outside
      cases outside
    · rw [(step_outside quoted quote).2]
      exact legal quoted

private theorem legal_run (legal : s.Legal) (cs : List Char) : (s.run cs).Legal := by
  induction cs generalizing s with
  | nil => exact legal
  | cons c cs ih => exact ih (legal_step legal c)

theorem cuts_iff {c : Char} :
    s.cuts sep c = true ↔ s.quoted = false ∧ c = sep ∧ (s.step c).depth = 0 := by
  simp [cuts, and_assoc]

/-- A cut leads back to where a text starts. A quotation mark does not: behind it a literal is open. -/
theorem step_of_cuts (legal : s.Legal) (quote : sep ≠ '"') {c : Char} (h : s.cuts sep c = true) :
    s.step c = {} := by
  obtain ⟨outside, rfl, depth⟩ := cuts_iff.1 h
  obtain ⟨quoted, escaped⟩ := step_outside outside quote
  rw [legal outside] at escaped
  cases next : s.step c with
  | mk depth' quoted' escaped' =>
    rw [next] at depth quoted escaped
    subst depth quoted escaped
    rfl

end Nesting

variable {sep : Char} {s : Nesting} {cs : List Char}

/-- The pieces with separators between them are the text. -/
theorem joinWith_piecesFrom (sep : Char) (s : Nesting) (cs : List Char) :
    joinWith [sep] (piecesFrom sep s cs) = cs := by
  induction cs generalizing s with
  | nil => rfl
  | cons c cs ih =>
    obtain ⟨first, rest, split, whole⟩ := piecesFrom_cons sep s c cs
    have joined := ih (s.step c)
    rw [split] at joined
    rw [whole]
    by_cases cut : s.cuts sep c = true
    · rw [if_pos cut, joinWith_cons_cons, joined, (Nesting.cuts_iff.1 cut).2.1]
      rfl
    · rw [if_neg cut, ← joined]
      cases rest with
      | nil => rw [joinWith_singleton, joinWith_singleton]
      | cons next rest => rw [joinWith_cons_cons, joinWith_cons_cons]; rfl

/-- Nothing cuts inside of a piece. The first one begins in the state that is given, and all others
in the one in which a text begins. -/
theorem keeps_piecesFrom (quote : sep ≠ '"') (legal : s.Legal) (cs : List Char) :
    ∃ first rest, piecesFrom sep s cs = first :: rest ∧ s.keeps sep first = true ∧
      ∀ piece ∈ rest, Nesting.keeps sep {} piece = true := by
  induction cs generalizing s with
  | nil => exact ⟨[], [], rfl, rfl, List.forall_mem_nil _⟩
  | cons c cs ih =>
    obtain ⟨first, rest, split, kept, others⟩ := ih (s.legal_step legal c)
    obtain ⟨first', rest', split', whole⟩ := piecesFrom_cons sep s c cs
    obtain ⟨rfl, rfl⟩ := List.cons_eq_cons.1 (split.symm.trans split')
    by_cases cut : s.cuts sep c = true
    · rw [Nesting.step_of_cuts legal quote cut] at kept
      rw [if_pos cut] at whole
      exact ⟨[], first :: rest, whole, rfl, List.forall_mem_cons.2 ⟨kept, others⟩⟩
    · rw [if_neg cut] at whole
      refine ⟨c :: first, rest, whole, ?_, others⟩
      rw [Nesting.keeps, kept, eq_false_of_ne_true cut]
      rfl

private theorem piecesFrom_piece (quote : sep ≠ '"') {piece : List Char}
    (member : piece ∈ piecesFrom sep {} cs) : piecesFrom sep {} piece = [piece] := by
  obtain ⟨first, rest, split, kept, others⟩ := keeps_piecesFrom quote Nesting.legal_start cs
  have each : ∀ piece ∈ first :: rest, Nesting.keeps sep {} piece = true :=
    List.forall_mem_cons.2 ⟨kept, others⟩
  exact piecesFrom_of_keeps (each piece (split ▸ member))

private theorem dropBlankLast_cases (pieces : List (List Char)) :
    dropBlankLast pieces = pieces ∨
      ∃ blanks, allBlank blanks = true ∧ pieces = dropBlankLast pieces ++ [blanks] := by
  rw [dropBlankLast]
  split
  · rename_i h
    obtain ⟨blanks, last, blank⟩ := (Option.any_eq_true _ _).1 h
    exact .inr ⟨blanks, blank, (List.dropLast_append_getLast? blanks last).symm⟩
  · exact .inl rfl

private theorem dropBlankLast_append {pieces others : List (List Char)} (h : others ≠ []) :
    dropBlankLast (pieces ++ others) = pieces ++ dropBlankLast others := by
  rw [dropBlankLast, dropBlankLast, List.getLast?_append_of_ne_nil _ h]
  split
  · rw [List.dropLast_append_of_ne_nil h]
  · rfl

private theorem splitTopLevel_eq_singleton {piece : List Char}
    (whole : piecesFrom sep {} piece = [piece])
    (solid : allBlank piece = false) : splitTopLevel sep piece = [piece] := by
  rw [splitTopLevel, whole, dropBlankLast, if_neg]
  simpa using solid

/-- The pieces of a text with separators between them are the text, perhaps without a separator and
blanks at its end, or it is blank and has no pieces. Each piece that is not blank is one piece, and
a separator that cuts parts what is in front of it from what is behind it. -/
theorem splitTopLevel_lossless (sep : Char) (cs : List Char) :
    (joinWith [sep] (splitTopLevel sep cs) = cs ∨
      (∃ blanks, allBlank blanks = true ∧
        cs = joinWith [sep] (splitTopLevel sep cs) ++ sep :: blanks) ∨
      allBlank cs = true ∧ splitTopLevel sep cs = []) ∧
    (sep ≠ '"' →
      (∀ piece ∈ splitTopLevel sep cs, allBlank piece = false →
        splitTopLevel sep piece = [piece]) ∧
      ∀ front back, cs = front ++ sep :: back → (Nesting.run {} front).cuts sep sep = true →
        splitTopLevel sep cs = piecesFrom sep {} front ++ splitTopLevel sep back) := by
  constructor
  · have joined := joinWith_piecesFrom sep {} cs
    obtain same | ⟨blanks, blank, whole⟩ := dropBlankLast_cases (piecesFrom sep {} cs)
    · exact .inl (by rw [splitTopLevel, same, joined])
    · by_cases empty : splitTopLevel sep cs = []
      · rw [whole, ← splitTopLevel, empty, List.nil_append, joinWith_singleton] at joined
        exact .inr (.inr ⟨joined ▸ blank, empty⟩)
      · rw [whole, ← splitTopLevel, joinWith_append _ empty (List.cons_ne_nil _ _),
          joinWith_singleton, List.append_assoc] at joined
        exact .inr (.inl ⟨blanks, blank, joined.symm⟩)
  · intro quote
    constructor
    · intro piece member solid
      exact splitTopLevel_eq_singleton (piecesFrom_piece quote (mem_of_mem_dropBlankLast member)) solid
    · rintro front back rfl cut
      rw [splitTopLevel, piecesFrom_of_cuts cut,
        Nesting.step_of_cuts (Nesting.legal_run Nesting.legal_start front) quote cut,
        dropBlankLast_append (piecesFrom_ne_nil _ _ _)]
      rfl

theorem splitTopLevel_lossless_declarations :
    let first := "Map<K, V> a".toList
    let rest := " String b, ".toList
    let declarations := first ++ ',' :: rest
    ',' ≠ '"' ∧ first ∈ splitTopLevel ',' declarations ∧ allBlank first = false ∧
      splitTopLevel ',' first = [first] ∧ (Nesting.run {} first).cuts ',' ',' = true ∧
      splitTopLevel ',' declarations = piecesFrom ',' {} first ++ splitTopLevel ',' rest := by
  intro first rest declarations
  have quote : ',' ≠ '"' := by decide
  have member : first ∈ splitTopLevel ',' declarations := by decide
  have solid : allBlank first = false := by decide
  have cut : (Nesting.run {} first).cuts ',' ',' = true := by decide
  obtain ⟨atomic, parts⟩ := (splitTopLevel_lossless ',' declarations).2 quote
  exact ⟨quote, member, solid, atomic first member solid, cut, parts first rest rfl cut⟩

/-- Behind a quotation mark that cuts, a literal is open. -/
example : splitTopLevel '"' ['"', 'a', '"'] = [[], ['a', '"']] ∧
    splitTopLevel '"' ['a', '"'] = [['a']] := by decide

end ApiCollection.Java
