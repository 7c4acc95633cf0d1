import ApiCollection.Proofs.TypeBehind

/-!
# Names of declared fields

What the sweep over the field declarations of a text finds is a whole word of the text with a
semicolon or an equals sign behind it.
-/

namespace ApiCollection

open Text Java

theorem suffix_keyword? {keywords : List String} {cs rest : List Char} {word : String}
    (h : keyword? keywords cs = some (word, rest)) : rest <:+ cs := by
  obtain ⟨w, -, read⟩ := List.exists_of_findSome?_eq_some h
  obtain ⟨rest', blank, same⟩ := Option.map_eq_some_iff.1 read
  obtain ⟨-, rfl⟩ := Prod.mk.inj same
  obtain ⟨behind, after, blank⟩ := Option.bind_eq_some_iff.1 blank
  rw [after?_eq_some_iff.1 after]
  exact (suffix_afterBlanks? blank).trans (List.suffix_append _ _)

theorem suffix_word? {cs word rest : List Char} (h : word? cs = some (word, rest)) :
    rest <:+ cs := by
  rw [word?, run?] at h
  split at h
  · obtain ⟨-, rfl⟩ := Prod.mk.inj (Option.some.inj h)
    exact List.dropWhile_suffix _
  · cases h

namespace Dto

private theorem suffix_maybeKeyword {keyword : String} {cs rest : List Char}
    (h : rest ∈ maybeKeyword keyword cs) : rest <:+ cs := by
  rw [maybeKeyword] at h
  split at h
  · rename_i word behind found
    simp only [List.mem_cons, List.not_mem_nil, or_false] at h
    obtain rfl | rfl := h
    · exact suffix_keyword? found
    · exact List.suffix_refl rest
  · rw [List.mem_singleton.1 h]

private theorem suffix_modifierEnds {cs rest : List Char} (h : rest ∈ modifierEnds cs) :
    rest <:+ cs := by
  obtain ⟨a, first, h⟩ := List.mem_flatMap.1 h
  obtain ⟨b, second, third⟩ := List.mem_flatMap.1 h
  exact ((suffix_maybeKeyword third).trans (suffix_maybeKeyword second)).trans
    (suffix_maybeKeyword first)

private theorem suffix_argumentEnds {cs rest : List Char} (h : rest ∈ argumentEnds cs) :
    rest <:+ cs := by
  induction cs with
  | nil => cases h
  | cons c cs ih =>
    rw [argumentEnds] at h
    split at h
    · cases h
    split at h
    · obtain later | here := List.mem_append.1 h
      · exact (ih later).trans (List.suffix_cons c cs)
      · rw [List.mem_singleton.1 here]
        exact List.suffix_cons c cs
    · exact (ih h).trans (List.suffix_cons c cs)

private theorem suffix_skipSuffixes (cs : List Char) : skipSuffixes cs <:+ cs := by
  fun_induction skipSuffixes cs with
  | case1 rest ih => exact ih.trans ((List.suffix_cons _ _).trans (List.suffix_cons _ _))
  | case2 cs other => exact List.suffix_refl cs

/-- Whether a text begins with a word that a semicolon or an equals sign follows. -/
def Ended (name s rest : List Char) : Prop :=
  ∃ behind c, word? s = some (name, behind) ∧ trimStart behind = c :: rest ∧ (c = ';' ∨ c = '=')

theorem Ended.suffix {name s rest : List Char} (h : Ended name s rest) : rest <:+ s := by
  obtain ⟨behind, c, word, trimmed, -⟩ := h
  have left := suffix_trimStart behind
  rw [trimmed] at left
  exact ((List.suffix_cons c rest).trans left).trans (suffix_word? word)

/-- The name of a declared field begins a part of the text, and its declaration ends behind it. -/
theorem ended_of_nameBehind? {modifiers start cs rest : List Char} {d : Declared}
    (h : nameBehind? modifiers start cs = some (d, rest)) :
    ∃ s, s <:+ cs ∧ Ended d.name s rest := by
  rw [nameBehind?] at h
  obtain ⟨s, blanks, h⟩ := Option.bind_eq_some_iff.1 h
  obtain ⟨⟨name, behind⟩, word, h⟩ := Option.bind_eq_some_iff.1 h
  refine ⟨s, (suffix_afterBlanks? blanks).trans (suffix_skipSuffixes cs), ?_⟩
  dsimp only at h
  split at h
  · rename_i c left trimmed
    split at h
    · rename_i ends
      obtain ⟨rfl, rfl⟩ := Prod.mk.inj (Option.some.inj h)
      exact ⟨behind, c, word, trimmed, by simpa using ends⟩
    · cases h
  · cases h

theorem ended_of_declared? {cs rest : List Char} {d : Declared}
    (h : declared? cs = some (d, rest)) : ∃ s, s <:+ cs ∧ Ended d.name s rest := by
  obtain ⟨⟨word, behind⟩, keyword, h⟩ := Option.bind_eq_some_iff.1 h
  obtain ⟨start, modifiers, h⟩ := List.exists_of_findSome?_eq_some h
  obtain ⟨⟨type, left⟩, dotted, h⟩ := Option.bind_eq_some_iff.1 h
  obtain ⟨ending, member, h⟩ := List.exists_of_findSome?_eq_some h
  obtain ⟨s, suffix, ended⟩ := ended_of_nameBehind? h
  have ends : ending <:+ left := by
    split at member
    · rw [List.mem_singleton.1 member]
    · rename_i inside angle
      have opened := afterChar?_eq_some_iff.1 angle
      rw [opened]
      exact (suffix_argumentEnds member).trans (List.suffix_cons _ _)
  refine ⟨s, ?_, ended⟩
  exact (((suffix.trans ends).trans (suffix_dottedWord? dotted)).trans
    (suffix_modifierEnds modifiers)).trans (suffix_keyword? keyword)

/-- The names of all declared fields of a text are ended in it. -/
theorem ended_of_mem_sweep {cs : List Char} {d : Declared}
    (h : d ∈ sweep (fun _ cs => declared? cs) cs) : ∃ s rest, s <:+ cs ∧ Ended d.name s rest := by
  have behind (prev : Option Char) (s : List Char) (d : Declared) (rest : List Char)
      (suffix : s <:+ cs) (read : declared? s = some (d, rest)) : rest <:+ cs := by
    obtain ⟨t, suffix', ended⟩ := ended_of_declared? read
    exact (ended.suffix.trans suffix').trans suffix
  obtain ⟨-, s, rest, suffix, read⟩ := exists_of_mem_sweepFrom
    (fun c s suffix => (List.suffix_cons c s).trans suffix) behind (List.suffix_refl cs) h
  obtain ⟨t, suffix', ended⟩ := ended_of_declared? read
  exact ⟨t, rest, suffix'.trans suffix, ended⟩

end Dto

end ApiCollection
