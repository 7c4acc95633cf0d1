import ApiCollection.Pattern.Glob

/-!
# What a filter keeps

A filter is meant to admit a path when one of its wanted patterns matches it, or it has none, and
none of its unwanted patterns does. Filtering drops the patterns that are no expressions before it
asks whether there are any wanted ones. So it keeps by one condition on each path, in order, but a
list of wanted patterns none of which is an expression counts as an empty one: it admits nothing,
and everything is kept.
-/

namespace ApiCollection.Pattern

def isReadable (pattern : String) : Bool := (globExpression? pattern).isSome

/-- A pattern that matches some path is an expression. -/
theorem isReadable_of_globMatches {pattern path : String}
    (found : globMatches pattern path = true) : isReadable pattern = true := by
  obtain ⟨read, -⟩ := (Option.any_eq_true_iff_get _ _).1 found
  exact read

namespace Filter

/-- The paths that a filter is meant to keep. -/
def Admits (f : Filter) (path : String) : Prop :=
  (f.wanted = [] ∨ ∃ pattern ∈ f.wanted, globMatches pattern path = true) ∧
    ∀ pattern ∈ f.unwanted, globMatches pattern path = false

instance (f : Filter) (path : String) : Decidable (f.Admits path) :=
  inferInstanceAs (Decidable (_ ∧ _))

def passes (f : Filter) (path : String) : Bool :=
  (!f.wanted.any isReadable || f.wanted.any (globMatches · path)) &&
    !f.unwanted.any (globMatches · path)

/-- One of the expressions of a list of patterns matches if one of the patterns does. -/
theorem anyMatches_filterMap (patterns : List String) (path : String) :
    anyMatches (patterns.filterMap globExpression?) path = patterns.any (globMatches · path) := by
  induction patterns with
  | nil => rfl
  | cons pattern rest ih =>
    rw [List.any_cons, ← ih, globMatches]
    cases read : globExpression? pattern with
    | none => rw [List.filterMap_cons_none read, Option.any_none, Bool.false_or]
    | some e => rw [List.filterMap_cons_some read, Option.any_some]; rfl

/-- A list of patterns has no expression if none of its patterns is readable. -/
theorem isEmpty_filterMap (patterns : List String) :
    (patterns.filterMap globExpression?).isEmpty = !patterns.any isReadable := by
  induction patterns with
  | nil => rfl
  | cons pattern rest ih =>
    rw [List.any_cons, isReadable]
    cases read : globExpression? pattern with
    | none => rw [List.filterMap_cons_none read, ih, Option.isSome_none, Bool.false_or]
    | some e => rw [List.filterMap_cons_some read]; rfl

/-- Filtering only where there is something to filter by. -/
theorem ite_filter (idle : Bool) (p : α → Bool) (files : List α) :
    (if idle then files else files.filter p) = files.filter fun x => idle || p x := by
  cases idle with
  | true => exact (List.filter_eq_self.2 fun _ _ => rfl).symm
  | false => rfl

/-- Two conditions keep the same of a list if they agree on its elements. -/
theorem filter_eq_filter_iff {p q : α → Bool} {files : List α} :
    files.filter p = files.filter q ↔ ∀ x ∈ files, p x = q x := by
  refine ⟨fun same x member => ?_, List.filter_congr⟩
  have kept : x ∈ files.filter p ↔ x ∈ files.filter q := by rw [same]
  rw [List.mem_filter, List.mem_filter, and_congr_right_iff] at kept
  exact Bool.eq_iff_iff.2 (kept member)

/-- Filtering asks each path one condition. -/
theorem apply_eq_filter (f : Filter) (path : α → String) (files : List α) :
    f.apply path files = files.filter fun x => f.passes (path x) := by
  have unmatched (x : α) : (!f.unwanted.any isReadable ||
      !f.unwanted.any (globMatches · (path x))) = !f.unwanted.any (globMatches · (path x)) := by
    cases found : f.unwanted.any (globMatches · (path x)) with
    | false => rw [Bool.not_false, Bool.or_true]
    | true =>
      obtain ⟨pattern, member, found⟩ := List.any_eq_true.1 found
      rw [List.any_eq_true.2 ⟨pattern, member, isReadable_of_globMatches found⟩]
      rfl
  simp only [apply, isEmpty_filterMap, anyMatches_filterMap]
  rw [ite_filter, ite_filter, List.filter_filter]
  simp only [unmatched, passes, Bool.and_comm]

/-- Whatever a filter admits passes. -/
theorem passes_of_admits {f : Filter} {path : String} (admitted : f.Admits path) :
    f.passes path = true := by
  obtain ⟨wanted, unwanted⟩ := admitted
  have clear : f.unwanted.any (globMatches · path) = false := by simpa using unwanted
  rw [passes, clear, Bool.not_false, Bool.and_true, Bool.or_eq_true]
  obtain none | ⟨pattern, member, found⟩ := wanted
  · left
    rw [none]
    rfl
  · right
    exact List.any_eq_true.2 ⟨pattern, member, found⟩

/-- What passes without being admitted passes a list of wanted patterns that are all unreadable. -/
theorem admits_or_of_passes {f : Filter} {path : String} (passed : f.passes path = true) :
    f.Admits path ∨ f.wanted ≠ [] ∧ f.wanted.any isReadable = false ∧
      ∀ pattern ∈ f.unwanted, globMatches pattern path = false := by
  obtain ⟨wanted, unwanted⟩ := Bool.and_eq_true_iff.1 passed
  have clear : ∀ pattern ∈ f.unwanted, globMatches pattern path = false := by simpa using unwanted
  obtain none | found := Bool.or_eq_true_iff.1 wanted
  · by_cases empty : f.wanted = []
    · exact .inl ⟨.inl empty, clear⟩
    · exact .inr ⟨empty, by simpa using none, clear⟩
  · exact .inl ⟨.inr (List.any_eq_true.1 found), clear⟩

/-- A path that a filter with wanted patterns admits shows that one of them is readable. -/
theorem any_isReadable_of_admits {f : Filter} {path : String} (admitted : f.Admits path)
    (nonempty : f.wanted ≠ []) : f.wanted.any isReadable = true := by
  obtain none | ⟨pattern, member, found⟩ := admitted.1
  · exact absurd none nonempty
  · exact List.any_eq_true.2 ⟨pattern, member, isReadable_of_globMatches found⟩

/-- Filtering keeps exactly what the filter admits if and only if there are no wanted patterns, or
one of them is readable, or an unwanted pattern matches each of the paths. -/
theorem apply_eq_filter_admits_iff (f : Filter) (path : α → String) (files : List α) :
    f.apply path files = files.filter (fun x => decide (f.Admits (path x))) ↔
      f.wanted = [] ∨ (∃ pattern ∈ f.wanted, isReadable pattern = true) ∨
        ∀ x ∈ files, ∃ pattern ∈ f.unwanted, globMatches pattern (path x) = true := by
  rw [apply_eq_filter, filter_eq_filter_iff]
  constructor
  · intro same
    by_cases empty : f.wanted = []
    · exact .inl empty
    by_cases readable : f.wanted.any isReadable = true
    · exact .inr (.inl (List.any_eq_true.1 readable))
    refine .inr (.inr fun x member => ?_)
    -- Nothing is admitted, so nothing passes, and only the unwanted patterns can be the reason.
    have refused : ¬ f.Admits (path x) := fun admitted =>
      readable (any_isReadable_of_admits admitted empty)
    have stopped : f.passes (path x) = false := by rw [same x member, decide_eq_false refused]
    rw [passes, Bool.eq_false_iff.2 readable] at stopped
    simpa using stopped
  · intro cases x member
    rw [Bool.eq_iff_iff, decide_eq_true_iff]
    refine ⟨fun passed => ?_, passes_of_admits⟩
    obtain admitted | ⟨nonempty, unreadable, clear⟩ := admits_or_of_passes passed
    · exact admitted
    · obtain empty | ⟨pattern, wanted, readable⟩ | matched := cases
      · exact absurd empty nonempty
      · exact absurd readable (by simpa using List.any_eq_false.1 unreadable pattern wanted)
      · obtain ⟨pattern, unwanted, found⟩ := matched x member
        exact absurd found (by rw [clear pattern unwanted]; decide)

/-- A wanted pattern that is no expression lets every file through, though it matches none. -/
theorem exists_apply_ne_filter_admits :
    ¬ Filter.apply { wanted := ["(unclosed"] } id ["src/main/java/UserController.java"] =
      ["src/main/java/UserController.java"].filter fun x =>
        decide (Filter.Admits { wanted := ["(unclosed"] } x) := by
  decide +kernel

end Filter
end ApiCollection.Pattern
