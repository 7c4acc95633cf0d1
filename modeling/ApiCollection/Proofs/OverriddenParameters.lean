import ApiCollection.Conversion.Request
import ApiCollection.Proofs.TableEntries

/-!
# Overridden parameters

A parameter of an operation overrides the parameter of its path with the same name and location. The
merged parameters have every name and location once, in the order in which they are first listed,
and with the parameter that is listed last.
-/

namespace ApiCollection.Conversion

def hasKey (key : String × String) (parameter : Json) : Bool := parameterKey parameter == key

section One

variable (parameter : Json) (merged : List Json)

private theorem keys_overrideParameter : (overrideParameter parameter merged).map parameterKey =
    if parameterKey parameter ∈ merged.map parameterKey then merged.map parameterKey
    else merged.map parameterKey ++ [parameterKey parameter] := by
  induction merged with
  | nil => rfl
  | cons p merged ih =>
    rw [overrideParameter]
    by_cases same : parameterKey p = parameterKey parameter
    · simp [same]
    · rw [if_neg (by simpa using same), List.map_cons, ih, List.map_cons]
      by_cases known : parameterKey parameter ∈ merged.map parameterKey
      · rw [if_pos known, if_pos (List.mem_cons_of_mem _ known)]
      · have new : parameterKey parameter ∉ parameterKey p :: merged.map parameterKey :=
          List.not_mem_cons_of_ne_of_not_mem (Ne.symm same) known
        rw [if_neg known, if_neg new, List.cons_append]

/-- Behind an override, a name and a location have the new parameter, or what they had. -/
theorem find?_overrideParameter (key : String × String) :
    (overrideParameter parameter merged).find? (hasKey key) =
      if hasKey key parameter then some parameter else merged.find? (hasKey key) := by
  induction merged with
  | nil =>
    rw [overrideParameter, List.find?_singleton]
    rfl
  | cons p merged ih =>
    rw [overrideParameter]
    split
    · rename_i same
      have alike : hasKey key p = hasKey key parameter := by
        rw [hasKey, hasKey, beq_iff_eq.1 same]
      rw [List.find?_cons, List.find?_cons, alike]
      cases hasKey key parameter <;> rfl
    · rename_i apart
      rw [List.find?_cons, ih, List.find?_cons]
      cases here : hasKey key p with
      | false => rfl
      | true =>
        have other : hasKey key parameter = false := by
          rw [hasKey, beq_iff_eq] at here
          rw [hasKey, ← here, beq_eq_false_iff_ne]
          exact fun same => apart (beq_iff_eq.2 same.symm)
        rw [other]
        rfl

private theorem overrideParameter_subset :
    overrideParameter parameter merged ⊆ parameter :: merged := by
  induction merged with
  | nil => exact List.Subset.refl _
  | cons p merged ih =>
    rw [overrideParameter]
    split
    · exact List.cons_subset_cons _ (List.subset_cons_self _ _)
    · intro q member
      rcases List.mem_cons.1 member with rfl | later
      · exact List.mem_cons_of_mem _ List.mem_cons_self
      · rcases List.mem_cons.1 (ih later) with rfl | old
        · exact List.mem_cons_self
        · exact List.mem_cons_of_mem _ (List.mem_cons_of_mem _ old)

variable {parameter merged}

private theorem overrideParameter_of_new
    (new : ∀ p ∈ merged, parameterKey p ≠ parameterKey parameter) :
    overrideParameter parameter merged = merged ++ [parameter] := by
  induction merged with
  | nil => rfl
  | cons p merged ih =>
    rw [List.forall_mem_cons] at new
    rw [overrideParameter, if_neg (by simpa using new.1), ih new.2]
    rfl

end One

/-- What is left of some parameters when each one overrides those in front of it. -/
def overridden (listed : List Json) : List Json :=
  listed.foldl (fun merged p => overrideParameter p merged) []

theorem overridden_concat (listed : List Json) (p : Json) :
    overridden (listed ++ [p]) = overrideParameter p (overridden listed) := List.foldl_append

theorem keys_overridden (listed : List Json) :
    (overridden listed).map parameterKey = (listed.map parameterKey).eraseDups := by
  induction listed using List.reverseRecOn with
  | nil => rfl
  | append_singleton listed p ih =>
    rw [overridden_concat, keys_overrideParameter, ih, List.map_append, List.map_singleton,
      Table.eraseDups_concat]
    simp only [List.mem_eraseDups]

private theorem find?_overridden (key : String × String) (listed : List Json) :
    (overridden listed).find? (hasKey key) = listed.findRev? (hasKey key) := by
  induction listed using List.reverseRecOn with
  | nil => rfl
  | append_singleton listed p ih =>
    rw [overridden_concat, find?_overrideParameter, ih, List.findRev?_eq_find?_reverse,
      List.findRev?_eq_find?_reverse, List.reverse_concat, List.find?_cons]
    cases hasKey key p <;> rfl

theorem overridden_subset (listed : List Json) : overridden listed ⊆ listed := by
  induction listed using List.reverseRecOn with
  | nil => exact List.Subset.refl _
  | append_singleton listed p ih =>
    rw [overridden_concat]
    intro q member
    obtain rfl | old := List.mem_cons.1 (overrideParameter_subset p _ member)
    · exact List.mem_append_right _ List.mem_cons_self
    · exact List.mem_append_left _ (ih old)

/-- With distinct names and locations, no parameter takes the place of another one. -/
theorem overridden_eq_self {listed : List Json} (distinct : (listed.map parameterKey).Nodup) :
    overridden listed = listed := by
  induction listed using List.reverseRecOn with
  | nil => rfl
  | append_singleton listed p ih =>
    rw [List.map_append, List.nodup_append] at distinct
    have fresh : ∀ q ∈ listed, parameterKey q ≠ parameterKey p := by
      intro q member same
      exact distinct.2.2 _ (List.mem_map_of_mem member) _ List.mem_cons_self same
    rw [overridden_concat, ih distinct.1, overrideParameter_of_new fresh]

/-- The parameters that are listed for a path, and then those for an operation of it. References are
followed, and what is no list lists none. -/
def listedParameters (document : Json) (shared own : Option Json) : List Json :=
  ((shared.bind Json.items?).getD [] ++ (own.bind Json.items?).getD []).map (resolve document)

theorem mergeParameters_eq_overridden (document : Json) (shared own : Option Json) :
    mergeParameters document shared own = overridden (listedParameters document shared own) := by
  simp [mergeParameters, listedParameters, overridden]

/-- The merged parameters have distinct names and locations, in the order in which these are first
listed, and under each the parameter that is listed last. -/
theorem mergeParameters_overrides (document : Json) (shared own : Option Json) :
    let listed := listedParameters document shared own
    let merged := mergeParameters document shared own
    (merged.map parameterKey).Nodup ∧
      merged.map parameterKey = (listed.map parameterKey).eraseDups ∧
      ∀ key, merged.find? (hasKey key) = listed.findRev? (hasKey key) := by
  intro listed merged
  have same : merged = overridden listed := mergeParameters_eq_overridden document shared own
  have keys : merged.map parameterKey = (listed.map parameterKey).eraseDups := by
    rw [same, keys_overridden]
  refine ⟨keys ▸ Table.nodup_eraseDups _, keys, ?_⟩
  intro key
  rw [same, find?_overridden]

end ApiCollection.Conversion
