import ApiCollection.Proofs.Blanks
import ApiCollection.Proofs.StopReading

/-!
# The sweep over candidates

A sweep falls apart at stops: the candidates of a text are those in front of a stop and those behind
it. In front of a declaration nothing is a candidate that begins with another character than that of
a word, or with a word that a parenthesis or an at sign follows.
-/

namespace ApiCollection.Java

open Text

def candidates (prev : Option Char) (cs : List Char) : List (Option Char × Candidate) :=
  sweepFrom (fun prev cs => (candidate? cs).map fun c => ((prev, c), c.behind)) prev cs

theorem methodHeads_eq (source : List Char) : methodHeads source =
    (candidates none source).filterMap fun (prev, c) => c.head? source prev := rfl

@[simp] theorem candidates_nil (prev : Option Char) : candidates prev [] = [] := by
  rw [candidates, sweepFrom]

theorem candidates_cons_none {c : Char} {cs : List Char} (prev : Option Char)
    (none' : candidate? (c :: cs) = none) : candidates prev (c :: cs) = candidates (some c) cs := by
  rw [candidates, sweepFrom, none']
  rfl

theorem candidates_cons_some {c : Char} {cs : List Char} {k : Candidate} (prev : Option Char)
    (found : candidate? (c :: cs) = some k) : candidates prev (c :: cs) =
      if k.behind.length ≤ cs.length then
        (prev, k) :: candidates ((c :: cs)[cs.length - k.behind.length]?) k.behind
      else (prev, k) :: candidates (some c) cs := by
  rw [candidates, sweepFrom, found]
  rfl

def lastBehind (prev : Option Char) (cs : List Char) : Option Char := cs.getLast?.or prev

private theorem lastBehind_cons (prev : Option Char) (c : Char) (cs : List Char) :
    lastBehind prev (c :: cs) = lastBehind (some c) cs := by
  cases cs with
  | nil => rfl
  | cons d cs =>
    rw [lastBehind, lastBehind, List.getLast?_cons_cons, List.getLast?_cons]
    rfl

/-- Characters at which no candidate begins are passed over. -/
theorem candidates_append_of_none {s r : List Char} (prev : Option Char)
    (none' : ∀ back, back <:+ s → back ≠ [] → candidate? (back ++ r) = none) :
    candidates prev (s ++ r) = candidates (lastBehind prev s) r := by
  induction s generalizing prev with
  | nil => rfl
  | cons c s ih =>
    have here : candidate? (c :: (s ++ r)) = none :=
      none' (c :: s) (List.suffix_refl _) (List.cons_ne_nil _ _)
    rw [List.cons_append, candidates_cons_none prev here, lastBehind_cons]
    exact ih _ fun back suffix => none' back (suffix.trans (List.suffix_cons c s))

/-- Whether a character can stand in a name with dots. -/
def isDotted (c : Char) : Bool := isWordChar c || c == '.'

theorem isDotted_of_mem_modifier : ∀ word ∈ methodModifiers, word.toList.all isDotted = true ∧
    word.toList ≠ [] := by decide +kernel

theorem modifierRuns_of_none {cs : List Char} (none' : keyword? methodModifiers cs = none) :
    modifierRuns cs = [cs] := by
  rw [modifierRuns, none']

theorem candidate?_of_keyword?_eq_none {cs : List Char}
    (none' : keyword? methodModifiers cs = none) : candidate? cs = behindModifiers? cs cs := by
  rw [candidate?, modifierRuns_of_none none', List.findSome?_cons]
  cases behindModifiers? cs cs <;> rfl

theorem afterChar?_of_head? {c : Char} {cs : List Char} (h : cs.head? ≠ some c) :
    afterChar? c cs = none := by
  cases cs with
  | nil => rfl
  | cons d cs =>
    rw [afterChar?, if_neg]
    intro same
    exact h (by rw [List.head?_cons, beq_iff_eq.1 same])

theorem keyword?_of_head? {cs : List Char} (undotted : cs.head?.any isDotted = false) :
    keyword? methodModifiers cs = none := by
  rw [keyword?, List.findSome?_eq_none_iff]
  intro word member
  cases found : after? word.toList cs with
  | none => rfl
  | some rest =>
    obtain ⟨dotted, nonempty⟩ := isDotted_of_mem_modifier word member
    rw [after?_eq_some_iff.1 found] at undotted
    cases letters : word.toList with
    | nil => exact absurd letters nonempty
    | cons w ws =>
      rw [letters, List.all_cons, Bool.and_eq_true] at dotted
      rw [letters, List.cons_append, List.head?_cons, Option.any_some, dotted.1] at undotted
      cases undotted

theorem behindModifiers?_of_head? {cs : List Char} (undotted : cs.head?.any isDotted = false)
    (angle : cs.head? ≠ some '<') (start : List Char) : behindModifiers? start cs = none := by
  have noWord : dottedWord? cs = none := by
    rw [dottedWord?, run?]
    exact if_neg (by rw [Bool.not_eq_true]; exact undotted)
  simp [behindModifiers?, skipTypeParameters?, afterChar?_of_head? angle, noWord]

/-- No candidate begins with another character than one of a name or an angle bracket. -/
theorem candidate?_of_head? {cs : List Char} (undotted : cs.head?.any isDotted = false)
    (angle : cs.head? ≠ some '<') : candidate? cs = none := by
  rw [candidate?_of_keyword?_eq_none (keyword?_of_head? undotted),
    behindModifiers?_of_head? undotted angle]

private theorem candidate?_nil : candidate? [] = none := candidate?_of_head? rfl (by decide)

def extended (tail : List Char) (found : List (Option Char × Candidate)) :
    List (Option Char × Candidate) := found.map fun (prev, c) => (prev, c.extend tail)

theorem candidates_stop {b : Char} (stop : isStop b = true) (rest t : List Char)
    (prev : Option Char) : candidates prev (t ++ b :: rest) =
      extended (b :: rest) (candidates prev t) ++ candidates (some b) rest := by
  induction hn : t.length using Nat.strongRecOn generalizing t prev with
  | ind n ih =>
    cases t with
    | nil =>
      have none' : candidate? ([] ++ b :: rest) = none := by
        rw [candidate?_stop stop, candidate?_nil]
        rfl
      rw [candidates_nil]
      exact candidates_cons_none prev none'
    | cons c t =>
      have whole := candidate?_stop stop rest (c :: t)
      rw [List.cons_append] at whole ⊢
      cases found : candidate? (c :: t) with
      | none =>
        rw [found] at whole
        rw [candidates_cons_none prev whole, candidates_cons_none prev found]
        exact ih t.length (by rw [← hn]; exact Nat.lt_succ_self _) t _ rfl
      | some k =>
        rw [found] at whole
        have behind : (k.extend (b :: rest)).behind = k.behind ++ b :: rest := rfl
        rw [candidates_cons_some prev whole, candidates_cons_some prev found, behind]
        simp only [List.length_append]
        rw [List.length_cons] at hn
        by_cases shorter : k.behind.length ≤ t.length
        · have index : (c :: (t ++ b :: rest))[t.length + (b :: rest).length -
              (k.behind.length + (b :: rest).length)]? = (c :: t)[t.length - k.behind.length]? := by
            rw [Nat.add_sub_add_right, ← List.cons_append]
            exact List.getElem?_append_left (by simp only [List.length_cons]; omega)
          rw [if_pos (by omega), if_pos shorter, ih k.behind.length (by omega) k.behind _ rfl, index]
          rfl
        · rw [if_neg (by omega), if_neg shorter, ih t.length (by omega) t _ rfl]
          rfl

/-- A blank is no character of a name. -/
theorem isDotted_of_isBlank {c : Char} (h : isBlank c = true) : isDotted c = false := by
  rw [isDotted, (of_isBlank h).1, Bool.false_or, beq_eq_false_iff_ne]
  rintro rfl
  exact absurd h (by decide)

theorem undotted_of_afterBlanks? {r rest : List Char} (blank : afterBlanks? r = some rest) :
    r.head?.any isDotted = false := by
  cases r with
  | nil => rfl
  | cons c r =>
    refine isDotted_of_isBlank ?_
    by_contra h
    rw [afterBlanks?, if_neg (by simpa using h)] at blank
    cases blank

section Name

variable {s r : List Char} (dotted : s.all isDotted = true) (nonempty : s ≠ [])
  (behind : r.head?.any isDotted = false)

include dotted nonempty behind

/-- A name in front of a text is a modifier when a modifier is read from both. -/
theorem of_keyword?_name {word : String} {rest : List Char}
    (found : keyword? methodModifiers (s ++ r) = some (word, rest)) :
    word ∈ methodModifiers ∧ word.toList = s ∧ afterBlanks? r = some rest := by
  obtain ⟨word', member, read⟩ := List.exists_of_findSome?_eq_some found
  obtain ⟨rest', blank, same⟩ := Option.map_eq_some_iff.1 read
  obtain ⟨rfl, rfl⟩ := Prod.mk.inj same
  obtain ⟨x, after, blank⟩ := Option.bind_eq_some_iff.1 blank
  have split := after?_eq_some_iff.1 after
  obtain ⟨letters, wordNonempty⟩ := isDotted_of_mem_modifier word' member
  have left := run?_append dotted nonempty behind
  have right := run?_append letters wordNonempty (undotted_of_afterBlanks? blank)
  rw [split, right, Option.some.injEq, Prod.mk.injEq] at left
  rw [left.2] at blank
  exact ⟨member, left.1, blank⟩

/-- A name may be a return type. -/
theorem behindModifiers?_name (start : List Char) : behindModifiers? start (s ++ r) =
    (typeEnds r).findSome? (nameBehind? start (s ++ r)) := by
  have noAngle : (s ++ r).head? ≠ some '<' := by
    cases s with
    | nil => exact absurd rfl nonempty
    | cons c s =>
      intro same
      rw [List.cons_append, List.head?_cons, Option.some.injEq] at same
      rw [same] at dotted
      exact absurd (List.all_eq_true.1 dotted _ List.mem_cons_self) (by decide)
  have word : dottedWord? (s ++ r) = some (s, r) := run?_append dotted nonempty behind
  rw [behindModifiers?, skipTypeParameters?, afterChar?_of_head? noAngle]
  simp [word]

end Name

/-- A modifier and blanks are read in front of anything. -/
theorem keyword?_modifier {word : String} (member : word ∈ methodModifiers) {r rest : List Char}
    (blank : afterBlanks? r = some rest) :
    keyword? methodModifiers (word.toList ++ r) = some (word, rest) := by
  obtain ⟨letters, nonempty⟩ := isDotted_of_mem_modifier word member
  cases found : keyword? methodModifiers (word.toList ++ r) with
  | none =>
    rw [keyword?, List.findSome?_eq_none_iff] at found
    have read := found word member
    rw [after?_eq_some_iff.2 rfl, Option.bind_some, blank] at read
    cases read
  | some pair =>
    obtain ⟨word', rest'⟩ := pair
    obtain ⟨-, same, blank'⟩ := of_keyword?_name letters nonempty
      (undotted_of_afterBlanks? blank) found
    rw [blank, Option.some.injEq] at blank'
    rw [String.toList_inj.1 same, blank']

/-- Behind a modifier a candidate is looked for first without it and then with it as a type. -/
theorem candidate?_keyword {cs : List Char} {word : String} {rest : List Char}
    (found : keyword? methodModifiers cs = some (word, rest)) (shorter : rest.length < cs.length) :
    candidate? cs =
      ((modifierRuns rest).findSome? (behindModifiers? cs)).or (behindModifiers? cs cs) := by
  rw [candidate?, modifierRuns, found]
  dsimp only
  rw [if_pos shorter, List.findSome?_append]
  congr 1
  rw [List.findSome?_cons]
  cases behindModifiers? cs cs <;> rfl

end ApiCollection.Java
