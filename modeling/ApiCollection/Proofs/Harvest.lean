import ApiCollection.Project.Extraction
import ApiCollection.Proofs.PathOrder
import Mathlib.Data.List.Pairwise

/-!
# Results that arrive in any order

The results of files are put together by path. What comes of them is the same in whatever order
they arrive, as long as no two of them belong to one path.
-/

namespace ApiCollection

variable {path : String} {x : Extraction} {sorted : List (String × Extraction)}

def InPathOrder (extracted : List (String × Extraction)) : Prop :=
  extracted.Pairwise fun a b => Path.isBefore a.1 b.1 = true

/-- Two paths that do not lie at the same place. -/
def Apart (a b : String) : Prop := Path.parts a ≠ Path.parts b

theorem Apart.symm {a b : String} (h : Apart a b) : Apart b a := Ne.symm h

/-- An extraction with a path of its own is added to the others. -/
theorem placeExtraction_perm (fresh : ∀ e ∈ sorted, Apart path e.1) :
    (placeExtraction path x sorted).Perm ((path, x) :: sorted) := by
  induction sorted with
  | nil => exact .refl _
  | cons e rest ih =>
    obtain ⟨other, y⟩ := e
    unfold placeExtraction
    split
    · exact .refl _
    · rename_i notBefore
      rw [if_pos ((Path.isBefore_or_of_parts_ne (fresh _ (List.mem_cons_self))).resolve_left
        notBefore)]
      have placed := ih fun e he => fresh e (List.mem_cons_of_mem _ he)
      exact (placed.cons _).trans (.swap _ _ _)

private theorem placeExtraction_inPathOrder (ordered : InPathOrder sorted)
    (fresh : ∀ e ∈ sorted, Apart path e.1) : InPathOrder (placeExtraction path x sorted) := by
  induction sorted with
  | nil => simp [InPathOrder, placeExtraction]
  | cons e rest ih =>
    obtain ⟨other, y⟩ := e
    obtain ⟨before, ordered⟩ := List.pairwise_cons.1 ordered
    have freshRest : ∀ e ∈ rest, Apart path e.1 := fun e he => fresh e (List.mem_cons_of_mem _ he)
    unfold placeExtraction
    split
    · rename_i first
      refine List.pairwise_cons.2 ⟨?_, List.pairwise_cons.2 ⟨before, ordered⟩⟩
      intro e he
      rcases List.mem_cons.1 he with rfl | he
      · exact first
      · exact Path.isBefore_trans first (before e he)
    · rename_i notBefore
      have later := (Path.isBefore_or_of_parts_ne (fresh _ (List.mem_cons_self))).resolve_left
        notBefore
      rw [if_pos later]
      refine List.pairwise_cons.2 ⟨?_, ih ordered freshRest⟩
      intro e he
      rcases List.mem_cons.1 ((placeExtraction_perm freshRest).subset he) with rfl | he
      · exact later
      · exact before e he

namespace Harvest

def extraction? : FileResult → Option (String × Extraction)
  | (path, .ok x) => some (path, x)
  | (_, .error _) => none

def warning? : FileResult → Option FileWarning
  | (_, .ok _) => none
  | (path, .error failure) => some (.failed path failure)

@[simp] theorem extraction?_ok (path : String) (x : Extraction) :
    extraction? (path, .ok x) = some (path, x) := rfl

@[simp] theorem extraction?_error (path : String) (failure : Failure) :
    extraction? (path, .error failure) = none := rfl

@[simp] theorem warning?_ok (path : String) (x : Extraction) :
    warning? (path, .ok x) = none := rfl

@[simp] theorem warning?_error (path : String) (failure : Failure) :
    warning? (path, .error failure) = some (.failed path failure) := rfl

@[simp] theorem receive_ok (h : Harvest) (path : String) (x : Extraction) :
    h.receive (path, .ok x) = { h with extracted := placeExtraction path x h.extracted } := rfl

@[simp] theorem receive_error (h : Harvest) (path : String) (failure : Failure) :
    h.receive (path, .error failure) =
      { h with warnings := h.warnings ++ [.failed path failure] } := rfl

/-- What a harvest is after some results whose paths are apart from each other: the extractions are
in the order of their paths, and the warnings are in the order of the results. -/
structure Holds (h : Harvest) (results : List FileResult) : Prop where
  ordered : InPathOrder h.extracted
  extracted : h.extracted.Perm (results.filterMap extraction?)
  warnings : h.warnings = results.filterMap warning?

private theorem holds_empty : Holds {} [] := ⟨.nil, .refl _, rfl⟩

theorem extraction?_fst {r : FileResult} {e : String × Extraction} (h : extraction? r = some e) :
    e.1 = r.1 := by
  obtain ⟨path, x | x⟩ := r
  · cases h
  · cases h
    rfl

theorem warning?_path {r : FileResult} {w : FileWarning} (h : warning? r = some w) :
    w.path = r.1 := by
  obtain ⟨path, x | x⟩ := r
  · cases h
    rfl
  · cases h

/-- One more result, with a path of its own. -/
theorem Holds.receive {h : Harvest} {results : List FileResult} {r : FileResult}
    (held : Holds h results) (fresh : ∀ s ∈ results, Apart r.1 s.1) :
    Holds (h.receive r) (results ++ [r]) := by
  obtain ⟨path, x | x⟩ := r
  · refine ⟨held.ordered, ?_, ?_⟩
    · simpa [List.filterMap_cons] using held.extracted
    · simp [held.warnings]
  · have freshExtracted : ∀ e ∈ h.extracted, Apart path e.1 := by
      intro e he
      obtain ⟨s, hs, hse⟩ := List.mem_filterMap.1 (held.extracted.subset he)
      rw [extraction?_fst hse]
      exact fresh s hs
    refine ⟨placeExtraction_inPathOrder held.ordered freshExtracted, ?_, ?_⟩
    · have placed := (placeExtraction_perm freshExtracted (x := x)).trans (held.extracted.cons _)
      simpa using placed.trans (List.perm_append_singleton _ _).symm
    · simp [held.warnings]

/-- Any number of results with paths of their own. -/
theorem Holds.foldl {h : Harvest} {seen results : List FileResult} (held : Holds h seen)
    (apart : (seen ++ results).Pairwise fun r s => Apart r.1 s.1) :
    Holds (results.foldl Harvest.receive h) (seen ++ results) := by
  induction results generalizing h seen with
  | nil => simpa using held
  | cons r results ih =>
    have split := List.pairwise_append.1 apart
    have next := held.receive (r := r) fun s hs => (split.2.2 s hs r List.mem_cons_self).symm
    simpa using ih next (by simpa using apart)

theorem holds_of {results : List FileResult}
    (apart : results.Pairwise fun r s => Apart r.1 s.1) : Holds (.of results) results := by
  exact holds_empty.foldl apart

/-- Results with the same paths, in whatever order, give the same extractions. -/
theorem extracted_eq_of_perm {results others : List FileResult}
    (apart : results.Pairwise fun r s => Apart r.1 s.1) (same : results.Perm others) :
    (Harvest.of results).extracted = (Harvest.of others).extracted := by
  have left := holds_of apart
  have right := holds_of ((same.pairwise_iff Apart.symm).1 apart)
  have perm := left.extracted.trans ((same.filterMap _).trans right.extracted.symm)
  refine perm.eq_of_pairwise ?_ left.ordered right.ordered
  intro a b _ _ hab hba
  rw [Path.isBefore_asymm hab] at hba
  cases hba

end Harvest

theorem FileWarning.sort_perm (warnings : List FileWarning) : (sort warnings).Perm warnings :=
  List.mergeSort_perm _ _

/-- Sorting forgets the order in which warnings about different files arose. -/
theorem FileWarning.sort_eq_of_perm {warnings others : List FileWarning}
    (apart : warnings.Pairwise fun v w => Apart v.path w.path) (same : warnings.Perm others) :
    sort warnings = sort others := by
  have trans : ∀ a b c : FileWarning, (!Path.isBefore b.path a.path) = true →
      (!Path.isBefore c.path b.path) = true → (!Path.isBefore c.path a.path) = true := by
    intro a b c hab hbc
    rw [Bool.not_eq_true'] at *
    exact Path.not_isBefore_trans hab hbc
  have total : ∀ a b : FileWarning,
      ((!Path.isBefore b.path a.path) || !Path.isBefore a.path b.path) = true := by
    intro a b
    cases hba : Path.isBefore b.path a.path with
    | false => rfl
    | true => simp [Path.isBefore_asymm hba]
  have perm := (sort_perm warnings).trans (same.trans (sort_perm others).symm)
  refine perm.eq_of_pairwise ?_ (List.pairwise_mergeSort trans total _)
    (List.pairwise_mergeSort trans total _)
  intro a b ha hb hab hba
  by_contra different
  have ha := (sort_perm warnings).subset ha
  have hb := same.symm.subset ((sort_perm others).subset hb)
  have symm : Std.Symm fun v w : FileWarning => Apart v.path w.path := ⟨fun _ _ => Apart.symm⟩
  have places : Apart a.path b.path := apart.forall ha hb different
  rw [Bool.not_eq_true'] at hab hba
  rcases Path.isBefore_or_of_parts_ne places with h | h
  · rw [h] at hba
    cases hba
  · rw [h] at hab
    cases hab

namespace ProjectExtraction

/-- The outcome of an extraction depends on the results only, not on the order in which they
arrive. -/
theorem ofResults_eq_of_perm (baseUrl : Option String) (cache : Dto.Cache) (controllers : Nat)
    {results others : List FileResult} (apart : results.Pairwise fun r s => Apart r.1 s.1)
    (same : results.Perm others) :
    ofResults baseUrl cache controllers results [] =
      ofResults baseUrl cache controllers others [] := by
  have apart' := (same.pairwise_iff Apart.symm).1 apart
  have warningsApart : ((results.filterMap Harvest.warning?)).Pairwise
      fun v w => Apart v.path w.path := by
    refine List.pairwise_filterMap.2 (apart.imp ?_)
    intro r s hrs v hv w hw
    rw [Harvest.warning?_path hv, Harvest.warning?_path hw]
    exact hrs
  simp only [ofResults, List.map_nil, List.append_nil, Harvest.extracted_eq_of_perm apart same,
    (Harvest.holds_of apart).warnings, (Harvest.holds_of apart').warnings,
    FileWarning.sort_eq_of_perm warningsApart (same.filterMap _)]

end ProjectExtraction
end ApiCollection
