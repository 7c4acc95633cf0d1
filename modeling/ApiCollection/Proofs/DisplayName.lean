import ApiCollection.Enhancement.Requests
import ApiCollection.Enhancement.Basic
import ApiCollection.Proofs.LetterTrace
import ApiCollection.Proofs.TextPieces
import Mathlib.Algebra.GroupWithZero.Nat
import Mathlib.Algebra.Order.BigOperators.Group.List
import Mathlib.Algebra.Order.Group.Nat

/-!
# Display names that speak of lists

A display name speaks of a list when the name did, unless a ligature of the name comes apart. Every
ligature comes apart once, so a name cannot gain and lose the word again and again.
-/

namespace ApiCollection.Enhancement

open Text

def SpeaksOfList (cs : List Char) : Prop :=
  ['l', 'i', 's', 't'] <:+: trace cs ∨ ['a', 'l', 'l'] <:+: trace cs

/-- The letters of a word are found in a text exactly when they are found in its trace. -/
theorem infix_map_letterOrBlank {p cs : List Char} (letters : ∀ c ∈ p, c ∈ listLetters) :
    p <:+: cs.map letterOrBlank ↔ p <:+: cs := by
  have fixed : ∀ c ∈ listLetters, ∀ d, letterOrBlank d = c → d = c := by
    intro c hc d same
    by_cases hd : d ∈ listLetters
    · rwa [letterOrBlank, if_pos hd] at same
    · rw [letterOrBlank_of_not_mem hd] at same
      subst same
      exact absurd hc (by decide)
  have self : p.map letterOrBlank = p := by
    conv_rhs => rw [← List.map_id' p]
    refine List.map_inj_left.2 ?_
    intro c hc
    rw [letterOrBlank, if_pos (letters c hc)]
  constructor
  · intro h
    obtain ⟨q, hq, same⟩ := List.infix_map_iff.1 h
    have copy : q = p := by
      rw [same, ← List.map_id' q, List.map_map]
      refine List.map_inj_left.2 ?_
      intro d hd
      have image : letterOrBlank d ∈ p := by
        rw [same]
        exact List.mem_map_of_mem hd
      exact fixed _ (letters _ image) d rfl
    rwa [copy] at hq
  · intro h
    have := h.map letterOrBlank
    rwa [self] at this

theorem namesList_iff (name : String) : namesList name = true ↔ SpeaksOfList name.toList := by
  rw [namesList, Bool.or_eq_true, occursIn_iff, occursIn_iff, SpeaksOfList, ← map_lower,
    infix_map_letterOrBlank (forall_mem_of_all (by decide)),
    infix_map_letterOrBlank (forall_mem_of_all (by decide))]
  rfl

/-- A change of a text that brings in no ligature, and makes the text speak of a list only where a
ligature goes. -/
structure Tame (new old : List Char) : Prop where
  ligatures : ligatureCount new ≤ ligatureCount old
  speaks : SpeaksOfList new → SpeaksOfList old ∨ ligatureCount new < ligatureCount old

theorem Tame.refl (cs : List Char) : Tame cs cs := ⟨Nat.le_refl _, .inl⟩

theorem Tame.trans {new middle old : List Char} (first : Tame new middle)
    (second : Tame middle old) : Tame new old := by
  refine ⟨Nat.le_trans first.ligatures second.ligatures, ?_⟩
  intro speaks
  obtain speaks | less := first.speaks speaks
  · obtain speaks | less := second.speaks speaks
    · exact .inl speaks
    · exact .inr (Nat.lt_of_le_of_lt first.ligatures less)
  · exact .inr (Nat.lt_of_lt_of_le less second.ligatures)

theorem SpeaksOfList.of_isInfix {new old : List Char} (h : new <:+: old)
    (speaks : SpeaksOfList new) : SpeaksOfList old := by
  obtain ⟨front, rest, rfl⟩ := h
  have traces : trace new <:+: trace (front ++ new ++ rest) := by
    rw [trace_append, trace_append]
    exact List.infix_append _ _ _
  exact speaks.imp (·.trans traces) (·.trans traces)

theorem ligatureCount_le_of_sublist {new old : List Char} (h : new.Sublist old) :
    ligatureCount new ≤ ligatureCount old := h.countP_le

theorem Tame.of_isInfix {new old : List Char} (h : new <:+: old) : Tame new old :=
  ⟨ligatureCount_le_of_sublist h.sublist, fun speaks => .inl (speaks.of_isInfix h)⟩

private theorem trace_joinWith (ws : List (List Char)) :
    trace (joinWith [' '] ws) = joinWith [' '] (ws.map trace) := by
  induction ws with
  | nil => rfl
  | cons w ws ih =>
    cases ws with
    | nil => simp
    | cons v ws =>
      rw [joinWith_cons_cons, trace_append, trace_append, ih]
      simp only [List.map_cons]
      rw [joinWith_cons_cons]
      rfl

/-- Texts that single blanks join speak of a list when one of them does. -/
theorem speaksOfList_joinWith {ws : List (List Char)} :
    SpeaksOfList (joinWith [' '] ws) ↔ ∃ w ∈ ws, SpeaksOfList w := by
  rw [SpeaksOfList, trace_joinWith, infix_joinWith_iff (by decide) (by decide),
    infix_joinWith_iff (by decide) (by decide)]
  constructor
  · rintro (⟨t, ht, inside⟩ | ⟨t, ht, inside⟩)
    · obtain ⟨w, hw, rfl⟩ := List.mem_map.1 ht
      exact ⟨w, hw, .inl inside⟩
    · obtain ⟨w, hw, rfl⟩ := List.mem_map.1 ht
      exact ⟨w, hw, .inr inside⟩
  · rintro ⟨w, hw, inside | inside⟩
    · exact .inl ⟨_, List.mem_map_of_mem hw, inside⟩
    · exact .inr ⟨_, List.mem_map_of_mem hw, inside⟩

theorem ligatureCount_joinWith (ws : List (List Char)) :
    ligatureCount (joinWith [' '] ws) = (ws.map ligatureCount).sum := by
  induction ws with
  | nil => rfl
  | cons w ws ih =>
    cases ws with
    | nil => simp
    | cons v ws =>
      rw [joinWith_cons_cons, ligatureCount_append, ligatureCount_append, ih, List.map_cons,
        List.sum_cons]
      rfl

private theorem ligatureCount_flatten (ws : List (List Char)) :
    ligatureCount ws.flatten = (ws.map ligatureCount).sum := by
  induction ws with
  | nil => rfl
  | cons w ws ih => rw [List.flatten_cons, ligatureCount_append, ih, List.map_cons, List.sum_cons]

/-- Pieces of a text with single blanks between them. -/
theorem Tame.joinWith_pieces {pieces : List (List Char)} {cs : List Char} (h : Pieces pieces cs) :
    Tame (joinWith [' '] pieces) cs := by
  constructor
  · rw [ligatureCount_joinWith, ← ligatureCount_flatten]
    exact ligatureCount_le_of_sublist h.sublist
  · intro speaks
    obtain ⟨w, hw, speaks⟩ := speaksOfList_joinWith.1 speaks
    exact .inl (speaks.of_isInfix (h.infixes w hw))

/-- Tame changes of texts with single blanks between them. -/
theorem Tame.joinWith_map {change : List Char → List Char} {ws : List (List Char)}
    (each : ∀ w ∈ ws, Tame (change w) w) :
    Tame (joinWith [' '] (ws.map change)) (joinWith [' '] ws) := by
  have le : ∀ w ∈ ws, ligatureCount (change w) ≤ ligatureCount w :=
    fun w hw => (each w hw).ligatures
  constructor
  · rw [ligatureCount_joinWith, ligatureCount_joinWith, List.map_map]
    exact List.sum_le_sum le
  · intro speaks
    obtain ⟨w', hw', speaks⟩ := speaksOfList_joinWith.1 speaks
    obtain ⟨w, hw, rfl⟩ := List.mem_map.1 hw'
    obtain speaks | less := (each w hw).speaks speaks
    · exact .inl (speaksOfList_joinWith.2 ⟨w, hw, speaks⟩)
    · right
      rw [ligatureCount_joinWith, ligatureCount_joinWith, List.map_map]
      exact List.sum_lt_sum (ligatureCount ∘ change) ligatureCount le ⟨w, hw, less⟩

theorem SpeaksOfList.of_trace_eq {cs ds : List Char} (same : trace cs = trace ds)
    (speaks : SpeaksOfList cs) : SpeaksOfList ds := by
  rwa [SpeaksOfList, same] at speaks

/-- The capital image of the first character brings in no word, unless it takes a ligature apart. -/
theorem tame_capitalize (cs : List Char) : Tame (capitalize cs) cs := by
  cases cs with
  | nil => exact .refl []
  | cons c rest =>
    have count : ligatureCount (capitalize (c :: rest)) ≤ ligatureCount rest := by
      rw [capitalize, ligatureCount_append, ligatureCount_upperChar, Nat.zero_add]
      exact ligatureCount_lowerWord rest
    have whole : ligatureCount (c :: rest) = ligatureCount [c] + ligatureCount rest := by
      rw [← List.singleton_append, ligatureCount_append]
    refine ⟨by omega, ?_⟩
    intro speaks
    by_cases ligature : c ∈ ligatures
    · have one : ligatureCount [c] = 1 := by simp [ligatureCount, ligature]
      right
      omega
    · left
      have split : trace (capitalize (c :: rest)) = trace (upperChar c) ++ trace rest := by
        rw [capitalize, trace_append, trace_lowerWord]
      obtain same | absent := trace_upperChar ligature
      · refine speaks.of_trace_eq ?_
        rw [split, same]
        rfl
      · -- The word begins behind the first character.
        have behind : SpeaksOfList rest := by
          rw [SpeaksOfList, split] at speaks
          refine speaks.imp (infix_of_infix_append ?_) (infix_of_infix_append ?_)
          · exact fun member => absent _ member (.inr rfl)
          · exact fun member => absent _ member (.inl rfl)
        exact behind.of_isInfix (List.suffix_cons c rest).isInfix

private theorem tame_displayWord (word : List Char) : Tame (displayWord word) word := by
  rw [displayWord]
  split
  · rw [titleCase, String.toList_ofList, String.toList_ofList]
    exact (Tame.joinWith_map fun w _ => tame_capitalize w).trans
      (.joinWith_pieces (pieces_identifierWords word))
  · exact .refl word

private theorem toLower_of_not_ascii {c : Char} (h : 128 ≤ c.toNat) : c.toLower = c := by
  have large : ¬(c.val ≥ 'A'.val ∧ c.val ≤ 'Z'.val) := by
    rintro ⟨-, small⟩
    have : c.toNat ≤ 90 := small
    omega
  exact dif_neg large

/-- A character that folds to a character of ASCII has its trace, unless it may be a long s or a
Kelvin sign. -/
theorem letterTrace_of_foldChar {c w : Char} (folded : foldChar c = w) (ascii : w.toNat < 128)
    (plain : w ≠ 's' ∧ w ≠ 'k') : letterTrace c = [letterOrBlank w] := by
  have small : c.toLower = w := by
    rw [foldChar] at folded
    split at folded
    · exact absurd folded.symm plain.1
    · split at folded
      · exact absurd folded.symm plain.2
      · exact folded
  by_cases h : c.toNat < 128
  · rw [letterTrace_of_ascii h, small]
  · rw [toLower_of_not_ascii (Nat.not_lt.1 h)] at small
    rw [small] at h
    exact absurd ascii h

theorem afterFolded?_eq_some {word cs rest : List Char} (h : afterFolded? word cs = some rest) :
    ∃ spelled, cs = spelled ++ rest ∧ List.Forall₂ (fun c w => foldChar c = w) spelled word := by
  induction word generalizing cs with
  | nil =>
    rw [afterFolded?, Option.some.injEq] at h
    exact ⟨[], h, .nil⟩
  | cons w word ih =>
    cases cs with
    | nil => cases h
    | cons c cs =>
      rw [afterFolded?] at h
      split at h
      · rename_i same
        obtain ⟨spelled, rfl, letters⟩ := ih h
        exact ⟨c :: spelled, rfl, .cons (beq_iff_eq.1 same) letters⟩
      · cases h

/-- A spelling of a word has the trace of the word. -/
theorem trace_spelled {spelled word : List Char}
    (letters : List.Forall₂ (fun c w => foldChar c = w) spelled word)
    (plain : ∀ w ∈ word, w.toNat < 128 ∧ w ≠ 's' ∧ w ≠ 'k') :
    trace spelled = word.map letterOrBlank := by
  induction letters with
  | nil => rfl
  | cons folded _ ih =>
    rw [List.forall_mem_cons] at plain
    rw [List.map_cons, ← ih plain.2, trace, List.flatMap_cons,
      letterTrace_of_foldChar folded plain.1.1 plain.1.2]
    rfl

theorem replaceFirst?_eq_some {read : Option Char → List Char → Option (List Char)}
    {new : List Char} {prev : Option Char} {cs out : List Char}
    (h : replaceFirst? read new prev cs = some out) :
    ∃ front before here rest, cs = front ++ here ∧ read before here = some rest ∧
      out = front ++ (new ++ rest) := by
  induction cs generalizing prev out with
  | nil => cases h
  | cons c cs ih =>
    rw [replaceFirst?] at h
    cases found : read prev (c :: cs) with
    | some rest =>
      rw [found] at h
      exact ⟨[], prev, c :: cs, rest, rfl, found, (Option.some.inj h).symm⟩
    | none =>
      rw [found] at h
      obtain ⟨out', replaced, rfl⟩ := Option.map_eq_some_iff.1 h
      obtain ⟨front, before, here, rest, rfl, read, rfl⟩ := ih replaced
      exact ⟨c :: front, before, here, rest, rfl, read, rfl⟩

theorem wholeWord?_eq_some {word : String} {prev : Option Char} {cs rest : List Char}
    (h : wholeWord? word prev cs = some rest) :
    ∃ spelled, cs = spelled ++ rest ∧
      List.Forall₂ (fun c w => foldChar c = w) spelled word.toList := by
  obtain ⟨rest', folded, kept⟩ := Option.bind_eq_some_iff.1 h
  split at kept
  · rw [Option.some.injEq] at kept
    subst kept
    exact afterFolded?_eq_some folded
  · cases kept

private theorem tame_withoutVerb (cs : List Char) : Tame (withoutVerb cs) cs := by
  apply Tame.of_isInfix
  rw [withoutVerb]
  cases found : verbs.findSome? fun verb => (afterFolded? verb.toList cs).bind afterBlanks? with
  | none => exact List.infix_refl cs
  | some rest =>
    obtain ⟨verb, -, read⟩ := List.exists_of_findSome?_eq_some found
    obtain ⟨behind, folded, blanks⟩ := Option.bind_eq_some_iff.1 read
    obtain ⟨spelled, rfl, -⟩ := afterFolded?_eq_some folded
    rw [afterBlanks?] at blanks
    split at blanks
    · rw [Option.some.injEq] at blanks
      subst blanks
      exact ((suffix_trimStart behind).trans (List.suffix_append _ _)).isInfix
    · cases blanks

/-- Where a name is made to say `List`, it said `all`. -/
theorem tame_sayList (name : List Char) : Tame (sayList name) name := by
  rw [sayList]
  cases replaced : replaceFirst? allWord? [] none name with
  | none => exact .refl name
  | some out =>
    obtain ⟨front, before, here, rest, rfl, read, rfl⟩ := replaceFirst?_eq_some replaced
    obtain ⟨behind, whole, rfl⟩ := Option.map_eq_some_iff.1 read
    obtain ⟨spelled, rfl, letters⟩ := wholeWord?_eq_some whole
    have said : SpeaksOfList (front ++ (spelled ++ behind)) := by
      have word : trace spelled = ['a', 'l', 'l'] :=
        trace_spelled letters (forall_mem_of_all (by decide))
      right
      rw [trace_append, trace_append, word]
      exact List.infix_append' _ _ _
    refine ⟨?_, fun _ => .inl said⟩
    calc ligatureCount (trim ("List ".toList ++ (front ++ ([] ++ trimStart behind))))
        ≤ ligatureCount ("List ".toList ++ (front ++ ([] ++ trimStart behind))) :=
          ligatureCount_le_of_sublist (isInfix_trim _).sublist
      _ = ligatureCount (front ++ trimStart behind) := by
          rw [ligatureCount_append, List.nil_append]
          exact Nat.zero_add _
      _ ≤ ligatureCount (front ++ (spelled ++ behind)) := by
          have := ligatureCount_le_of_sublist (suffix_trimStart behind).sublist
          simp only [ligatureCount_append]
          omega

/-- The words `by id` have one trace in every spelling. -/
theorem tame_sayById (name : List Char) : Tame (sayById name) name := by
  rw [sayById]
  cases replaced : replaceFirst? (wholeWord? "by id") "by ID".toList none name with
  | none => exact .refl name
  | some out =>
    obtain ⟨front, before, here, rest, rfl, whole, rfl⟩ := replaceFirst?_eq_some replaced
    obtain ⟨spelled, rfl, letters⟩ := wholeWord?_eq_some whole
    have same : trace (front ++ ("by ID".toList ++ rest)) = trace (front ++ (spelled ++ rest)) := by
      have word : trace "by ID".toList = "by id".toList.map letterOrBlank := by decide +kernel
      rw [trace_append, trace_append, trace_append, trace_append, word,
        trace_spelled letters (forall_mem_of_all (by decide))]
    refine ⟨?_, fun speaks => .inl (speaks.of_trace_eq same)⟩
    have none' : ligatureCount "by ID".toList = 0 := by decide
    simp only [Option.getD_some, ligatureCount_append, none']
    omega

/-- A display name is a tame change of the name. -/
theorem tame_displayName (name method : String) :
    Tame (displayName name method).toList name.toList := by
  unfold displayName
  extract_lets spoken improved
  have tameSpoken : Tame spoken name.toList :=
    (Tame.joinWith_map fun w _ => tame_displayWord w).trans <|
      (Tame.joinWith_pieces (pieces_words _)).trans <|
      (tame_withoutVerb _).trans (.of_isInfix (isInfix_trim _))
  have tameImproved : Tame improved name.toList := by
    by_cases read : equalIgnoringCase method "GET" = true
    · rw [show improved = sayById (sayList spoken) from if_pos read]
      exact (tame_sayById _).trans ((tame_sayList _).trans tameSpoken)
    · rw [show improved = spoken from if_neg read]
      exact tameSpoken
  by_cases empty : improved.isEmpty = true
  · rw [if_pos empty]
    exact .refl name.toList
  · rw [if_neg empty, String.toList_ofList]
    exact tameImproved

end ApiCollection.Enhancement
