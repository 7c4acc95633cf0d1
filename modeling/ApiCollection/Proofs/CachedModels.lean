import ApiCollection.Dto.Basic
import ApiCollection.Proofs.TextPieces
import Mathlib.Data.List.Induction

/-!
# Cached model classes

A cache answers as the list of all classes that were ever given to it does: with the first one of a
name, else with the first one whose name begins with the stem. So an answer stays until a class of
the very name is given.
-/

namespace ApiCollection.Dto.Cache

variable {cache : Cache} {name : String}

private theorem startsWith_eq_isPrefixOf (start cs : List Char) :
    Text.startsWith start cs = start.isPrefixOf cs := by
  rw [Bool.eq_iff_iff, Text.startsWith_iff, List.isPrefixOf_iff_prefix]

/-- A class that is not added has the name of one that is found before it. -/
theorem find?_insert (cache : Cache) (dto : Dto) (p : String → Bool) :
    ((cache.insert dto).entries.find? fun d => p d.name) =
      (cache.entries ++ [dto]).find? fun d => p d.name := by
  rw [insert_eq]
  split
  · rename_i known
    obtain ⟨other, member, same⟩ := List.any_eq_true.1 known
    rw [List.find?_append, List.find?_singleton]
    cases here : p dto.name with
    | false => exact Option.or_none.symm
    | true =>
      have found : (cache.entries.find? fun d => p d.name).isSome = true :=
        List.find?_isSome.2 ⟨other, member, by rw [beq_iff_eq.1 same, here]⟩
      rw [Option.or_of_isSome found]
  · rfl

theorem find?_ofList (dtos : List Dto) (p : String → Bool) :
    ((ofList dtos).entries.find? fun d => p d.name) = dtos.find? fun d => p d.name := by
  induction dtos using List.reverseRecOn with
  | nil => rfl
  | append_singleton dtos dto ih =>
    have step : ofList (dtos ++ [dto]) = (ofList dtos).insert dto := List.foldl_append
    rw [step, find?_insert, List.find?_append, List.find?_append, ih]

private theorem has_ofList_iff {dtos : List Dto} :
    (ofList dtos).has name = true ↔ ∃ d ∈ dtos, d.name = name := by
  have found := congrArg Option.isSome (find?_ofList dtos (· == name))
  rw [Bool.eq_iff_iff, List.find?_isSome, List.find?_isSome] at found
  rw [has, List.any_eq_true, found]
  simp only [beq_iff_eq]

/-- The first class of a name, else the first one whose name begins with the stem of the name. -/
def firstOf? (dtos : List Dto) (name : String) : Option Dto :=
  (dtos.find? fun d => d.name == name).or
    (if stem name = [] then none else dtos.find? fun d => (stem name).isPrefixOf d.name.toList)

private theorem get?_ofList (dtos : List Dto) (name : String) :
    (ofList dtos).get? name = firstOf? dtos name := by
  rw [get?_eq_or, find?_ofList dtos (· == name),
    find?_ofList dtos fun n => Text.startsWith (stem name) n.toList, firstOf?]
  simp only [List.isEmpty_iff, startsWith_eq_isPrefixOf]

/-- More classes do not change an answer unless one of them has the very name. -/
theorem firstOf?_append {dtos later : List Dto} {dto : Dto} (found : firstOf? dtos name = some dto)
    (others : ∀ d ∈ later, d.name ≠ name) : firstOf? (dtos ++ later) name = some dto := by
  have none' : (later.find? fun d => d.name == name) = none := by
    rw [List.find?_eq_none]
    exact fun d member same => others d member (beq_iff_eq.1 same)
  rw [firstOf?, List.find?_append, none', Option.or_none, List.find?_append]
  rw [firstOf?] at found
  cases exact : dtos.find? fun d => d.name == name with
  | some d =>
    rw [exact] at found
    exact found
  | none =>
    rw [exact, Option.none_or] at found
    rw [Option.none_or]
    split at found
    · cases found
    · rename_i stemmed
      rw [if_neg stemmed, found]
      rfl

/-- A class is added exactly when none of its name was given before. A name is answered by the first
class of that name, else by the first one whose name begins with its stem, and this answer stays
until a class of that name is given. -/
theorem first_insertion_wins (before later : List Dto) (dto : Dto) (name : String) :
    (((ofList before).insertIfNew dto).1 = true ↔ ∀ d ∈ before, d.name ≠ dto.name) ∧
      (ofList before).get? name = firstOf? before name ∧
      ∀ found, (ofList before).get? name = some found → (∀ d ∈ later, d.name ≠ name) →
        (ofList (before ++ later)).get? name = some found := by
  refine ⟨?_, get?_ofList before name, ?_⟩
  · rw [insertIfNew_eq, Bool.not_eq_true', ← Bool.not_eq_true, has_ofList_iff]
    simp only [not_exists, not_and, ne_eq]
  · intro found answer others
    rw [get?_ofList] at answer ⊢
    exact firstOf?_append answer others

theorem first_insertion_wins_invoice :
    let dtos : List Dto := [⟨"InvoiceDto", none, []⟩, ⟨"InvoiceLine", none, []⟩]
    let later : List Dto := [⟨"Invoice", none, []⟩]
    (ofList dtos).get? "InvoiceResponse" = some ⟨"InvoiceDto", none, []⟩ ∧
      (∀ d ∈ later, d.name ≠ "InvoiceResponse") ∧
      (ofList (dtos ++ later)).get? "InvoiceResponse" = some ⟨"InvoiceDto", none, []⟩ := by
  intro dtos later
  have answer : (ofList dtos).get? "InvoiceResponse" = some ⟨"InvoiceDto", none, []⟩ := by
    decide +kernel
  have others : ∀ d ∈ later, d.name ≠ "InvoiceResponse" := by decide
  exact ⟨answer, others,
    (first_insertion_wins dtos later ⟨"Invoice", none, []⟩ "InvoiceResponse").2.2 _ answer others⟩

end ApiCollection.Dto.Cache
