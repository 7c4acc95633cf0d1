import ApiCollection.Text.Reading
import ApiCollection.Text.Casing
import Mathlib.Data.List.Infix

/-!
# Pieces of texts

What trimming, cutting and joining leave of a text is made of pieces of the text.
-/

namespace ApiCollection.Text

section Infix

variable {α : Type} {p xs ys : List α} {a sep : α}

/-- A piece without the separator does not reach over it. -/
theorem infix_append_cons_iff (nonempty : p ≠ []) (absent : sep ∉ p) :
    p <:+: xs ++ sep :: ys ↔ p <:+: xs ∨ p <:+: ys := by
  constructor
  · intro h
    rw [List.infix_append_iff_ne_nil, List.infix_cons_iff] at h
    obtain left | (start | right) | ⟨front, rest, -, restNonempty, rfl, -, start⟩ := h
    · exact .inl left
    · obtain rfl | ⟨q, rfl, -⟩ := List.prefix_cons_iff.1 start
      · exact absurd rfl nonempty
      · exact absurd List.mem_cons_self absent
    · exact .inr right
    · obtain rfl | ⟨q, rfl, -⟩ := List.prefix_cons_iff.1 start
      · exact absurd rfl restNonempty
      · exact absurd (List.mem_append_right _ List.mem_cons_self) absent
  · rintro (left | right)
    · exact left.trans (List.infix_append [] xs _)
    · exact right.trans (List.suffix_append_of_suffix (List.suffix_cons sep ys)).isInfix

/-- A piece whose first character the front does not have lies behind the front. -/
theorem infix_of_infix_append (absent : a ∉ xs) (h : a :: p <:+: xs ++ ys) : a :: p <:+: ys := by
  rw [List.infix_append_iff_ne_nil] at h
  obtain left | right | ⟨front, rest, frontNonempty, -, split, suffix, -⟩ := h
  · exact absurd (left.subset List.mem_cons_self) absent
  · exact right
  · cases front with
    | nil => exact absurd rfl frontNonempty
    | cons b front =>
      obtain ⟨rfl, -⟩ := List.cons_eq_cons.1 split
      exact absurd (suffix.subset List.mem_cons_self) absent

/-- An end of a text is an end of its second part, or begins in the first. -/
theorem suffix_append_cases {t : List α} (h : t <:+ xs ++ ys) :
    t <:+ ys ∨ ∃ back, back <:+ xs ∧ t = back ++ ys := by
  obtain ⟨front, split⟩ := h
  rcases List.append_eq_append_iff.1 split with ⟨cut, rfl, rfl⟩ | ⟨cut, -, rfl⟩
  · exact .inr ⟨cut, List.suffix_append front cut, rfl⟩
  · exact .inl (List.suffix_append cut t)

/-- A separator that stands in none of the ends of a text stands in what is between them. -/
theorem exists_of_mem_middle {front zs rest : List α} (first : sep ∉ xs) (last : sep ∉ zs)
    (split : xs ++ (ys ++ zs) = front ++ sep :: rest) :
    ∃ read more, front = xs ++ read ∧ ys = read ++ sep :: more ∧ rest = more ++ zs := by
  have behind {read : List α} (h : ys ++ zs = read ++ sep :: rest) :
      ∃ more, ys = read ++ sep :: more ∧ rest = more ++ zs := by
    rcases List.append_eq_append_iff.1 h with ⟨cut, -, tail⟩ | ⟨cut, rfl, tail⟩
    · rw [tail] at last
      exact absurd (List.mem_append_right _ List.mem_cons_self) last
    · cases cut with
      | nil =>
        rw [List.nil_append] at tail
        rw [← tail] at last
        exact absurd List.mem_cons_self last
      | cons c more =>
        obtain ⟨rfl, same⟩ := List.cons_eq_cons.1 tail
        exact ⟨more, rfl, same⟩
  rcases List.append_eq_append_iff.1 split with ⟨read, rfl, tail⟩ | ⟨cut, rfl, tail⟩
  · obtain ⟨more, same, same'⟩ := behind tail
    exact ⟨read, more, rfl, same, same'⟩
  · cases cut with
    | nil =>
      obtain ⟨more, same, same'⟩ := @behind [] tail.symm
      exact ⟨[], more, by simp, same, same'⟩
    | cons c cut =>
      obtain ⟨rfl, -⟩ := List.cons_eq_cons.1 tail
      exact absurd (List.mem_append_right _ List.mem_cons_self) first

end Infix

private theorem cutAt?_isSome_iff {piece cs : List Char} :
    (cutAt? piece cs).isSome ↔ piece <:+: cs := by
  induction cs with
  | nil =>
    cases piece with
    | nil => simp [cutAt?]
    | cons a piece => simp [cutAt?]
  | cons c cs ih =>
    rw [List.infix_cons_iff, ← ih, cutAt?]
    cases found : after? piece (c :: cs) with
    | some rest =>
      rw [after?_eq_some_iff.1 found]
      simp
    | none =>
      have notPrefix : ¬piece <+: c :: cs := by
        rintro ⟨rest, same⟩
        rw [after?_eq_some_iff.2 same.symm] at found
        cases found
      simp [notPrefix]

theorem before?_eq_some_iff {ending cs front : List Char} :
    before? ending cs = some front ↔ cs = front ++ ending := by
  simp only [before?, Option.map_eq_some_iff, after?_eq_some_iff]
  constructor
  · rintro ⟨rest, same, rfl⟩
    rw [← List.reverse_inj, same, List.reverse_append, List.reverse_reverse]
  · rintro rfl
    exact ⟨front.reverse, List.reverse_append, List.reverse_reverse _⟩

theorem startsWith_iff {start cs : List Char} : startsWith start cs = true ↔ start <+: cs := by
  rw [startsWith, Option.isSome_iff_exists]
  exact exists_congr fun _ => after?_eq_some_iff.trans eq_comm

theorem startsWith_singleton_iff {c : Char} {cs : List Char} :
    startsWith [c] cs = true ↔ cs.head? = some c := by
  rw [startsWith, Option.isSome_iff_exists, List.head?_eq_some_iff]
  exact exists_congr fun _ => after?_eq_some_iff

theorem endsWith_iff {ending cs : List Char} : endsWith ending cs = true ↔ ending <:+ cs := by
  rw [endsWith, Option.isSome_iff_exists]
  exact exists_congr fun _ => before?_eq_some_iff.trans eq_comm

theorem endsWith_singleton_iff {c : Char} {cs : List Char} :
    endsWith [c] cs = true ↔ cs.getLast? = some c := by
  rw [endsWith, Option.isSome_iff_exists, List.getLast?_eq_some_iff]
  exact exists_congr fun _ => before?_eq_some_iff

theorem occursIn_iff {piece cs : List Char} : occursIn piece cs = true ↔ piece <:+: cs :=
  cutAt?_isSome_iff

@[simp] theorem joinWith_nil (sep : List Char) : joinWith sep [] = [] := rfl

@[simp] theorem joinWith_singleton (sep w : List Char) : joinWith sep [w] = w := by
  simp [joinWith, List.intercalate]

theorem joinWith_cons_cons (sep w v : List Char) (ws : List (List Char)) :
    joinWith sep (w :: v :: ws) = w ++ sep ++ joinWith sep (v :: ws) := by
  simp [joinWith, List.intercalate]

/-- What goes from two texts to one behind the other holds of joined texts. -/
theorem joinWith_closed {P : List Char → Prop} (nil : P [])
    (append : ∀ xs ys, P xs → P ys → P (xs ++ ys)) {sep : List Char} (between : P sep)
    {texts : List (List Char)} (h : ∀ t ∈ texts, P t) : P (joinWith sep texts) := by
  induction texts with
  | nil => exact nil
  | cons t texts ih =>
    rw [List.forall_mem_cons] at h
    cases texts with
    | nil =>
      rw [joinWith_singleton]
      exact h.1
    | cons u texts =>
      rw [joinWith_cons_cons]
      exact append _ _ (append _ _ h.1 between) (ih h.2)

theorem all_joinWith {p : Char → Bool} {sep : List Char} (between : sep.all p = true)
    {texts : List (List Char)} (h : ∀ t ∈ texts, t.all p = true) :
    (joinWith sep texts).all p = true :=
  @joinWith_closed (fun cs => cs.all p = true) rfl
    (fun xs ys first second => by rw [List.all_append, first, second]; rfl) _ between _ h

/-- A piece without blanks lies in one of the texts that single blanks join. -/
theorem infix_joinWith_iff {p : List Char} (nonempty : p ≠ []) (absent : ' ' ∉ p)
    {ws : List (List Char)} : p <:+: joinWith [' '] ws ↔ ∃ w ∈ ws, p <:+: w := by
  induction ws with
  | nil => simp [nonempty]
  | cons w ws ih =>
    cases ws with
    | nil => simp
    | cons v ws =>
      rw [joinWith_cons_cons, List.append_assoc, List.singleton_append,
        infix_append_cons_iff nonempty absent, ih]
      simp

/-- Pieces of a text that stand in it in order and without overlap. -/
structure Pieces (pieces : List (List Char)) (cs : List Char) : Prop where
  infixes : ∀ w ∈ pieces, w <:+: cs
  sublist : pieces.flatten.Sublist cs

theorem Pieces.of_flatten {pieces : List (List Char)} {cs : List Char}
    (h : pieces.flatten = cs) : Pieces pieces cs := by
  subst h
  exact ⟨fun w hw => List.infix_of_mem_flatten hw, .refl _⟩

private theorem Pieces.filter {pieces : List (List Char)} {cs : List Char} (h : Pieces pieces cs)
    (keep : List Char → Bool) : Pieces (pieces.filter keep) cs where
  infixes w hw := h.infixes w (List.mem_of_mem_filter hw)
  sublist := by
    refine .trans ?_ h.sublist
    clear h
    induction pieces with
    | nil => exact .refl _
    | cons v pieces ih =>
      rw [List.filter_cons]
      split
      · exact (List.Sublist.refl v).append ih
      · exact ih.trans (List.sublist_append_right v _)

/-- Pieces of pieces are pieces. -/
theorem Pieces.flatMap {pieces : List (List Char)} {cs : List Char} (h : Pieces pieces cs)
    {cut : List Char → List (List Char)} (cuts : ∀ w, Pieces (cut w) w) :
    Pieces (pieces.flatMap cut) cs where
  infixes w hw := by
    obtain ⟨v, hv, hw⟩ := List.mem_flatMap.1 hw
    exact ((cuts v).infixes w hw).trans (h.infixes v hv)
  sublist := by
    refine .trans ?_ h.sublist
    clear h
    induction pieces with
    | nil => exact .refl _
    | cons v pieces ih =>
      rw [List.flatMap_cons, List.flatten_append, List.flatten_cons]
      exact (cuts v).sublist.append ih

theorem splitWhere_ne_nil (p : Char → Bool) (cs : List Char) : splitWhere p cs ≠ [] := by
  cases cs with
  | nil => simp [splitWhere]
  | cons c cs =>
    rw [splitWhere]
    split
    · simp
    · split <;> simp

theorem splitWhere_cons_of_pos {p : Char → Bool} {c : Char} (h : p c = true) (cs : List Char) :
    splitWhere p (c :: cs) = [] :: splitWhere p cs := by
  rw [splitWhere, if_pos h]

theorem splitWhere_cons_of_neg {p : Char → Bool} {c : Char} (h : p c = false) (cs : List Char) :
    ∃ piece pieces, splitWhere p cs = piece :: pieces ∧
      splitWhere p (c :: cs) = (c :: piece) :: pieces := by
  cases split : splitWhere p cs with
  | nil => exact absurd split (splitWhere_ne_nil p cs)
  | cons piece pieces =>
    refine ⟨piece, pieces, rfl, ?_⟩
    rw [splitWhere, h, split]
    rfl

theorem splitWhere_append {p : Char → Bool} {c : Char} (h : p c = true) (xs ys : List Char) :
    splitWhere p (xs ++ c :: ys) = splitWhere p xs ++ splitWhere p ys := by
  induction xs with
  | nil => exact splitWhere_cons_of_pos h ys
  | cons x xs ih =>
    cases separates : p x with
    | true =>
      rw [List.cons_append, splitWhere_cons_of_pos separates, splitWhere_cons_of_pos separates, ih,
        List.cons_append]
    | false =>
      obtain ⟨piece, pieces, split, step⟩ := splitWhere_cons_of_neg separates xs
      obtain ⟨piece', pieces', split', step'⟩ := splitWhere_cons_of_neg separates (xs ++ c :: ys)
      rw [split', split, List.cons_append, List.cons.injEq] at ih
      rw [List.cons_append, step', step, ih.1, ih.2, List.cons_append]

theorem splitWhere_of_none {p : Char → Bool} {cs : List Char} (h : ∀ c ∈ cs, p c = false) :
    splitWhere p cs = [cs] := by
  induction cs with
  | nil => rfl
  | cons c cs ih =>
    rw [List.forall_mem_cons] at h
    rw [splitWhere, h.1, ih h.2]
    rfl

/-- Only the empty text has the empty piece alone. -/
theorem splitWhere_eq_singleton_nil {p : Char → Bool} {cs : List Char}
    (h : splitWhere p cs = [[]]) : cs = [] := by
  cases cs with
  | nil => rfl
  | cons c cs =>
    cases separates : p c with
    | true =>
      rw [splitWhere_cons_of_pos separates, List.cons.injEq] at h
      exact absurd h.2 (splitWhere_ne_nil p cs)
    | false =>
      obtain ⟨piece, pieces, -, step⟩ := splitWhere_cons_of_neg separates cs
      rw [step] at h
      cases h

/-- The first piece is in front, and the others lie behind it. -/
theorem splitWhere_pieces (p : Char → Bool) (cs : List Char) :
    (∃ piece pieces, splitWhere p cs = piece :: pieces ∧ piece <+: cs) ∧
      Pieces (splitWhere p cs) cs := by
  induction cs with
  | nil => exact ⟨⟨[], [], rfl, List.prefix_refl _⟩, .of_flatten rfl⟩
  | cons c cs ih =>
    obtain ⟨⟨piece, pieces, split, front⟩, whole⟩ := ih
    cases h : p c with
    | true =>
      rw [splitWhere_cons_of_pos h]
      refine ⟨⟨[], _, rfl, List.nil_prefix⟩, ⟨?_, ?_⟩⟩
      · rw [List.forall_mem_cons]
        exact ⟨List.nil_infix, fun w hw => (whole.infixes w hw).trans (List.suffix_cons c cs).isInfix⟩
      · exact whole.sublist.trans (List.sublist_cons_self c cs)
    | false =>
      obtain ⟨piece', pieces', split', joined⟩ := splitWhere_cons_of_neg h cs
      obtain ⟨rfl, rfl⟩ := List.cons_eq_cons.1 (split.symm.trans split')
      have front' : c :: piece <+: c :: cs := (List.prefix_cons_inj c).2 front
      rw [joined]
      rw [split] at whole
      refine ⟨⟨_, _, rfl, front'⟩, ⟨?_, ?_⟩⟩
      · rw [List.forall_mem_cons]
        exact ⟨front'.isInfix, fun w hw =>
          (whole.infixes w (List.mem_cons_of_mem _ hw)).trans (List.suffix_cons c cs).isInfix⟩
      · exact whole.sublist.cons_cons c

theorem pieces_splitWhere (p : Char → Bool) (cs : List Char) : Pieces (splitWhere p cs) cs :=
  (splitWhere_pieces p cs).2

theorem pieces_words (cs : List Char) :
    Pieces (words cs) cs := (pieces_splitWhere isBlank cs).filter _

private theorem flatten_casedWords (mode : WordMode) (word cs : List Char) :
    (casedWords mode word cs).flatten = word.reverse ++ cs := by
  induction mode, word, cs using casedWords.induct with
  | case1 mode word empty => simp_all [casedWords]
  | case2 mode word nonempty => simp_all [casedWords]
  | case3 mode word c => simp [casedWords]
  | case4 mode word c d rest small ih => simp [casedWords, small, ih]
  | case5 mode word c d rest notSmall last ih =>
    rw [casedWords, if_neg notSmall, if_pos last, List.flatten_cons, ih]
    rfl
  | case6 mode word c d rest notSmall notLast ih =>
    rw [casedWords, if_neg notSmall, if_neg notLast, ih]
    simp

theorem pieces_identifierWords (cs : List Char) : Pieces (identifierWords cs) cs :=
  (pieces_splitWhere _ cs).flatMap fun w => .of_flatten (flatten_casedWords .start [] w)

/-- A text is dropped up to the first place of a character in it. -/
theorem exists_dropWhile_ne {c : Char} {cs : List Char} (h : c ∈ cs) :
    ∃ left, cs.dropWhile (· != c) = c :: left := by
  obtain ⟨front, back, rfl, absent⟩ := List.eq_append_cons_of_mem h
  have passed : ∀ d ∈ front, (d != c) = true := by
    intro d member
    rw [bne_iff_ne]
    rintro rfl
    exact absent member
  refine ⟨back, ?_⟩
  rw [List.dropWhile_append_of_pos passed, List.dropWhile_cons_of_neg (by simp)]

theorem afterChar?_eq_some_iff {c : Char} {cs rest : List Char} :
    afterChar? c cs = some rest ↔ cs = c :: rest := by
  cases cs with
  | nil => simp [afterChar?]
  | cons d cs => simp [afterChar?]

theorem run?_eq_some {p : Char → Bool} {cs run rest : List Char}
    (h : run? p cs = some (run, rest)) :
    cs = run ++ rest ∧ run.all p = true ∧ run ≠ [] := by
  rw [run?] at h
  split at h
  · next first =>
    obtain ⟨rfl, rfl⟩ := Prod.mk.inj (Option.some.inj h)
    refine ⟨List.takeWhile_append_dropWhile.symm, List.all_takeWhile, ?_⟩
    cases cs with
    | nil => cases first
    | cons c cs =>
      rw [List.head?_cons, Option.any_some] at first
      simp [first]
  · cases h

theorem word?_eq_some {cs word rest : List Char} (h : word? cs = some (word, rest)) :
    cs = word ++ rest ∧ ∀ c ∈ word, isWordChar c = true := by
  obtain ⟨split, characters, -⟩ := run?_eq_some h
  exact ⟨split, List.all_eq_true.1 characters⟩

theorem afterBlanks?_eq_trimStart {cs rest : List Char} (h : afterBlanks? cs = some rest) :
    rest = trimStart cs := by
  rw [afterBlanks?] at h
  split at h
  · exact (Option.some.inj h).symm
  · cases h

/-- The blanks that are skipped. -/
theorem afterBlanks?_split {cs rest : List Char} (h : afterBlanks? cs = some rest) :
    ∃ blanks, cs = blanks ++ rest ∧ blanks.all isBlank = true ∧ blanks ≠ [] := by
  have run : run? isBlank cs = some (cs.takeWhile isBlank, rest) := by
    rw [afterBlanks?_eq_trimStart h, run?, if_pos]
    · rfl
    · by_contra unblank
      rw [afterBlanks?, if_neg unblank] at h
      cases h
  exact ⟨_, run?_eq_some run⟩

theorem cutAtChar?_front {sep : Char} {cs front rest : List Char}
    (h : cutAtChar? sep cs = some (front, rest)) : sep ∉ front := by
  induction cs generalizing front with
  | nil => cases h
  | cons c cs ih =>
    rw [cutAtChar?] at h
    split at h
    · rw [Option.some.injEq, Prod.mk.injEq] at h
      rw [← h.1]
      exact List.not_mem_nil
    · rename_i other
      obtain ⟨⟨front', rest'⟩, cut, same⟩ := Option.map_eq_some_iff.1 h
      obtain ⟨rfl, rfl⟩ := Prod.mk.inj same
      rw [List.mem_cons, not_or]
      exact ⟨fun eq => other (beq_iff_eq.2 eq.symm), ih cut⟩

theorem cutAtChar?_none {sep : Char} {cs : List Char} (h : cutAtChar? sep cs = none) :
    sep ∉ cs := by
  induction cs with
  | nil => exact List.not_mem_nil
  | cons c cs ih =>
    rw [cutAtChar?] at h
    split at h
    · cases h
    · rename_i other
      rw [List.mem_cons, not_or]
      exact ⟨fun eq => other (beq_iff_eq.2 eq.symm), ih (Option.map_eq_none_iff.1 h)⟩

theorem cutAtChar?_append {sep : Char} {front : List Char} (absent : sep ∉ front)
    (rest : List Char) : cutAtChar? sep (front ++ sep :: rest) = some (front, rest) := by
  induction front with
  | nil => simp [cutAtChar?]
  | cons c front ih =>
    rw [List.mem_cons, not_or] at absent
    have other : ¬(c == sep) = true := fun same => absent.1 (beq_iff_eq.1 same).symm
    rw [List.cons_append, cutAtChar?, if_neg other, ih absent.2]
    rfl

/-- Texts that go on behind the same first separator are the same on both sides of it. -/
theorem append_cons_inj {sep : Char} {a b c d : List Char} (first : sep ∉ a) (second : sep ∉ c)
    (h : a ++ sep :: b = c ++ sep :: d) : a = c ∧ b = d := by
  have cuts := cutAtChar?_append first b
  rw [h, cutAtChar?_append second, Option.some.injEq, Prod.mk.injEq] at cuts
  exact ⟨cuts.1.symm, cuts.2.symm⟩

theorem cutAtChar?_of_not_mem {sep : Char} {cs : List Char} (h : sep ∉ cs) :
    cutAtChar? sep cs = none := by
  cases cut : cutAtChar? sep cs with
  | none => rfl
  | some parts =>
    rw [cutAtChar?_eq_some cut, List.mem_append] at h
    exact absurd (.inr List.mem_cons_self) h

theorem splitAtChar_append (sep : Char) (xs ys : List Char) :
    splitAtChar sep (xs ++ sep :: ys) = splitAtChar sep xs ++ splitAtChar sep ys :=
  splitWhere_append (p := (· == sep)) (beq_self_eq_true sep) xs ys

theorem lastPiece_append (sep : Char) (xs ys : List Char) :
    lastPiece sep (xs ++ sep :: ys) = lastPiece sep ys := by
  have some' : splitAtChar sep ys ≠ [] := splitWhere_ne_nil _ ys
  rw [lastPiece, splitAtChar_append, List.getLast?_append_of_ne_nil _ some', lastPiece]

theorem lastPiece_of_not_mem {sep : Char} {cs : List Char} (h : sep ∉ cs) :
    lastPiece sep cs = cs := by
  have single : splitAtChar sep cs = [cs] := by
    apply splitWhere_of_none
    intro c member
    rw [beq_eq_false_iff_ne]
    rintro rfl
    exact h member
  rw [lastPiece, single]
  rfl

theorem suffix_trimStart (cs : List Char) : trimStart cs <:+ cs := List.dropWhile_suffix _

private theorem isPrefix_trimEnd (cs : List Char) : trimEnd cs <+: cs := by
  rw [trimEnd, dropEndWhile, ← List.reverse_suffix, List.reverse_reverse]
  exact List.dropWhile_suffix _

theorem isInfix_trim (cs : List Char) : trim cs <:+: cs :=
  (isPrefix_trimEnd _).isInfix.trans (suffix_trimStart cs).isInfix

/-- What a sweep finds is read at one of the texts that it goes to. -/
theorem exists_of_mem_sweepFrom {α : Type} {read : Option Char → List Char → Option (α × List Char)}
    {P : List Char → Prop} (tail : ∀ c cs, P (c :: cs) → P cs)
    (behind : ∀ prev cs a rest, P cs → read prev cs = some (a, rest) → P rest)
    {prev : Option Char} {cs : List Char} (start : P cs) {a : α}
    (member : a ∈ sweepFrom read prev cs) :
    ∃ prev s rest, P s ∧ read prev s = some (a, rest) := by
  induction hn : cs.length using Nat.strongRecOn generalizing prev cs with
  | ind n ih =>
    subst hn
    cases cs with
    | nil =>
      rw [sweepFrom] at member
      cases member
    | cons c cs =>
      have later := tail c cs start
      rw [sweepFrom] at member
      cases found : read prev (c :: cs) with
      | none =>
        rw [found] at member
        exact ih cs.length (by simp) later member rfl
      | some pair =>
        obtain ⟨b, rest⟩ := pair
        rw [found] at member
        dsimp only at member
        split at member
        · rename_i shorter
          obtain rfl | member := List.mem_cons.1 member
          · exact ⟨prev, _, rest, start, found⟩
          · exact ih rest.length (by simp; omega) (behind _ _ _ _ start found) member rfl
        · obtain rfl | member := List.mem_cons.1 member
          · exact ⟨prev, _, rest, start, found⟩
          · exact ih cs.length (by simp) later member rfl

end ApiCollection.Text
