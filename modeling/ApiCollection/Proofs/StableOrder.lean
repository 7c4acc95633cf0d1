import ApiCollection.Proofs.Enhancement

/-!
# Stable order

The nodes of a folder fall into groups: the folders, and for each method rank the requests whose
names speak of lists and the others. Ordering puts the groups one after the other and keeps the
order within each group, in every folder of the tree, and moves nothing out of its folder. The
enhancement orders last, by the final names; what it does to the responses behind that does not
disturb the groups.
-/

namespace ApiCollection

open Item

namespace Enhancement

/-- The groups in which the nodes of a folder stand. -/
inductive Group where
  | folders
  | requests (method : Nat) (lists : Bool)
  deriving DecidableEq, Repr

def group : Item → Group
  | .folder _ _ _ => .folders
  | .request r => .requests (methodRank r.request.method) (namesList r.name)

/-- Folders stand before requests, a smaller method rank before a larger one, and within a rank the
names that speak of lists before the others. -/
inductive Group.Before : Group → Group → Prop
  | folders {method : Nat} {lists : Bool} : Before .folders (.requests method lists)
  | method {less more : Nat} {lists others : Bool} (smaller : less < more) :
      Before (.requests less lists) (.requests more others)
  | lists {method : Nat} : Before (.requests method true) (.requests method false)

private theorem Group.not_before_folders {g : Group} : ¬ g.Before .folders := nofun

theorem Group.requests_before_requests {m n : Nat} {l k : Bool} :
    Before (.requests m l) (.requests n k) ↔ m < n ∨ m = n ∧ l = true ∧ k = false := by
  constructor
  · rintro (_ | smaller | _)
    · exact .inl smaller
    · exact .inr ⟨rfl, rfl, rfl⟩
  · rintro (smaller | ⟨rfl, rfl, rfl⟩)
    · exact .method smaller
    · exact .lists

private theorem methodRank_pos (method : String) : 0 < methodRank method := by
  unfold methodRank
  split <;> decide

def rankedMethods : List String := ["GET", "POST", "PUT", "PATCH", "DELETE"]

/-- The place of a method in any case among the ranked ones; all others share the last place. -/
def methodPlace (method : String) : Nat := rankedMethods.idxOf (Text.uppercase method)

private theorem methodRank_eq (method : String) :
    methodRank method = if methodPlace method < 5 then methodPlace method + 1 else 99 := by
  rw [methodRank, methodPlace]
  split
  case h_6 get post put patch delete =>
    have other : Text.uppercase method ∉ rankedMethods := by
      simp only [rankedMethods, List.mem_cons, List.not_mem_nil, or_false]
      rintro (name | name | name | name | name)
      exacts [get name, post name, put name, patch name, delete name]
    rw [List.idxOf_eq_length other, if_neg (by decide)]
  all_goals
    next name => rw [name]; decide

/-- Ranks tell the places of methods apart: GET comes before POST, PUT, PATCH, DELETE and all others,
in this order. -/
theorem methodRank_lt_iff {a b : String} :
    methodRank a < methodRank b ↔ methodPlace a < methodPlace b := by
  have first : methodPlace a ≤ 5 := List.idxOf_le_length
  have second : methodPlace b ≤ 5 := List.idxOf_le_length
  rw [methodRank_eq, methodRank_eq]
  split <;> split <;> omega

private theorem methodRank_eq_iff {a b : String} :
    methodRank a = methodRank b ↔ methodPlace a = methodPlace b := by
  have less := methodRank_lt_iff (a := a) (b := b)
  have more := methodRank_lt_iff (a := b) (b := a)
  omega

/-- Requests stand in the order of their methods, and those of one method with lists first. -/
theorem request_before_request_iff {r s : RequestItem} :
    (group (.request r)).Before (group (.request s)) ↔
      methodPlace r.request.method < methodPlace s.request.method ∨
        methodPlace r.request.method = methodPlace s.request.method ∧
          namesList r.name = true ∧ namesList s.name = false := by
  rw [group, group, Group.requests_before_requests, methodRank_lt_iff, methodRank_eq_iff]

/-- The ranks of nodes are in the order of their groups. -/
theorem before_group_iff {a b : Item} : (group a).Before (group b) ↔ rank a < rank b := by
  cases b with
  | folder => exact iff_of_false Group.not_before_folders (Nat.not_lt_zero _)
  | request s =>
    cases a with
    | folder =>
      have positive := methodRank_pos s.request.method
      exact iff_of_true .folders (by rw [rank, rank]; omega)
    | request r =>
      rw [group, group, Group.requests_before_requests, rank, rank]
      cases namesList r.name <;> cases namesList s.name <;> simp <;> omega

/-- Nodes of one group are those of one rank. -/
theorem rank_eq_of_group_eq {a b : Item} (same : group a = group b) : rank a = rank b := by
  have irreflexive (i : Item) : ¬ (group i).Before (group i) := by
    rw [before_group_iff]
    exact Nat.lt_irrefl _
  have notLess : ¬ rank a < rank b := before_group_iff.not.1 (same ▸ irreflexive a)
  have notMore : ¬ rank b < rank a := before_group_iff.not.1 (same ▸ irreflexive a)
  omega

/-- Nodes of which none stands behind one of a later group. -/
def InGroups (items : List Item) : Prop :=
  items.Pairwise fun a b => ¬ (group b).Before (group a)

theorem inGroups_iff {items : List Item} :
    InGroups items ↔ items.Pairwise fun a b => rank a ≤ rank b := by
  simp only [InGroups, before_group_iff, Nat.not_lt]

/-- The same nodes in groups, with the order in each group as it was. -/
structure StablySorted (items sorted : List Item) : Prop where
  perm : sorted.Perm items
  inGroups : InGroups sorted
  stable : ∀ g, (sorted.filter fun i => group i = g) = items.filter fun i => group i = g

/-- Sorting by rank keeps the order of the nodes that have one group. -/
theorem filter_group_mergeSort (items : List Item) (g : Group) :
    ((items.mergeSort precedes).filter fun i => group i = g) =
      items.filter fun i => group i = g := by
  have alike : (items.filter fun i => group i = g).Pairwise fun a b => precedes a b = true := by
    refine List.pairwise_of_forall_mem_list fun a ha b hb => precedes_iff.2 (Nat.le_of_eq ?_)
    have first : group a = g := by simpa using (List.mem_filter.1 ha).2
    have second : group b = g := by simpa using (List.mem_filter.1 hb).2
    exact rank_eq_of_group_eq (first.trans second.symm)
  have kept := (List.sublist_mergeSort precedes_trans precedes_total alike
    List.filter_sublist).filter fun i => decide (group i = g)
  rw [List.filter_filter] at kept
  simp only [Bool.and_self] at kept
  exact (kept.eq_of_length ((List.mergeSort_perm items precedes).filter _).length_eq.symm).symm

theorem stablySorted_mergeSort (items : List Item) :
    StablySorted items (items.mergeSort precedes) where
  perm := List.mergeSort_perm items precedes
  inGroups := inGroups_iff.2 (pairwise_mergeSort_rank items)
  stable := filter_group_mergeSort items

/-- A node and the same node with the nodes of every folder below it stably sorted. -/
inductive SortsTo : Item → Item → Prop
  | folder {name : String} {description : Option String} {items inside sorted : List Item}
      (below : List.Forall₂ SortsTo items inside) (here : StablySorted inside sorted) :
      SortsTo (.folder name description items) (.folder name description sorted)
  | request (r : RequestItem) : SortsTo (.request r) (.request r)

/-- Some nodes, and they stably sorted with every folder below them. -/
def AllSortTo (items sorted : List Item) : Prop :=
  ∃ inside, List.Forall₂ SortsTo items inside ∧ StablySorted inside sorted

private theorem sortsTo_sortItem (i : Item) : SortsTo i (sortItem i) := by
  induction i using Item.induct with
  | folder name description items ih =>
    rw [sortItem_folder]
    have below : List.Forall₂ SortsTo items (items.map sortItem) := by
      rw [List.forall₂_map_right_iff, List.forall₂_same]
      exact ih
    exact .folder below (stablySorted_mergeSort _)
  | request r => exact .request r

private theorem allSortTo_sortItems (items : List Item) : AllSortTo items (sortItems items) := by
  have below : List.Forall₂ SortsTo items (items.map sortItem) := by
    rw [List.forall₂_map_right_iff, List.forall₂_same]
    exact fun i _ => sortsTo_sortItem i
  rw [sortItems_eq]
  exact ⟨_, below, stablySorted_mergeSort _⟩

/-- A node below which the nodes of every folder stand in groups. -/
inductive Grouped : Item → Prop
  | folder {name : String} {description : Option String} {items : List Item}
      (here : InGroups items) (below : ∀ i ∈ items, Grouped i) :
      Grouped (.folder name description items)
  | request (r : RequestItem) : Grouped (.request r)

private theorem InOrder.grouped {i : Item} (ordered : InOrder i) : Grouped i := by
  induction ordered with
  | folder pairwise _ ih => exact .folder (inGroups_iff.2 pairwise) ih
  | request r => exact .request r

end Enhancement

namespace Enhancer

open Enhancement

/-- What enhancing does behind the ordering changes responses only. -/
theorem alike_arranged_enhance (e : Enhancer) (c : Collection) :
    List.Forall₂ (Alike fun r s => s = { r with responses := s.responses }) (arranged c.items)
      (e.enhance c).1.items := by
  have completed {r s : RequestItem} (h : Completed e.cache r s) :
      s = { r with responses := s.responses } := by
    obtain ⟨stream, rfl⟩ := h
    obtain ⟨responses, same, -⟩ := completeResponses_run e.cache r stream
    rw [same]
  exact (alike_enhance e c).imp fun _ _ alike => alike.imp fun _ _ => completed

/-- Sorting a collection sorts its tree stably in every folder and keeps all else. Enhancing one
sorts the prepared tree in the same way and then changes responses only, so that every folder of the
enhanced tree is in groups by the final names. -/
theorem allSortTo_sort_and_enhance (e : Enhancer) (c : Collection) :
    (c.sort = { c with items := c.sort.items } ∧ AllSortTo c.items c.sort.items) ∧
      (∃ sorted, AllSortTo (c.items.map (Item.map prepare)) sorted ∧
        List.Forall₂ (Alike fun r s => s = { r with responses := s.responses }) sorted
          (e.enhance c).1.items) ∧
      InGroups (e.enhance c).1.items ∧ ∀ i ∈ (e.enhance c).1.items, Grouped i := by
  refine ⟨⟨rfl, allSortTo_sortItems _⟩, ⟨arranged c.items, allSortTo_sortItems _,
    alike_arranged_enhance e c⟩, ?_⟩
  cases (inOrder_enhance e c).grouped with
  | folder here below => exact ⟨here, below⟩

end Enhancer
end ApiCollection
