import ApiCollection.Proofs.CollectionTree
import Mathlib.Algebra.Order.BigOperators.Group.List
import Mathlib.Algebra.Order.Group.Nat

/-!
# The order of a tree

Sorting puts a tree in order and leaves an ordered tree alone. A pass that replaces requests may
disturb the order; when sorting brings back the tree that was there before, then the pass has not
replaced anything, provided that no request can gain rank again and again.
-/

namespace ApiCollection.Enhancement

open Item

theorem precedes_iff {a b : Item} : precedes a b = true ↔ rank a ≤ rank b := decide_eq_true_iff

theorem precedes_trans (a b c : Item) (first : precedes a b = true) (second : precedes b c = true) :
    precedes a c = true := by
  rw [precedes_iff] at *
  exact first.trans second

theorem precedes_total (a b : Item) : (precedes a b || precedes b a) = true := by
  rw [Bool.or_eq_true, precedes_iff, precedes_iff]
  exact Nat.le_total _ _

theorem sortBelow_eq_map (items : List Item) : sortBelow items = items.map sortItem := by
  induction items with
  | nil => rfl
  | cons i items ih => simp [sortBelow, ih]

@[simp] theorem sortItem_folder (name : String) (description : Option String) (items : List Item) :
    sortItem (.folder name description items) =
      .folder name description ((items.map sortItem).mergeSort precedes) := by
  rw [sortItem, sortBelow_eq_map]

@[simp] theorem sortItem_request (r : RequestItem) : sortItem (.request r) = .request r := rfl

/-- Sorting some nodes is sorting a folder that holds them. -/
theorem sortItems_eq (items : List Item) :
    sortItems items = (items.map sortItem).mergeSort precedes := by
  rw [sortItems, sortBelow_eq_map]

/-- The requests keep their places in the tree up to their order in each folder. -/
theorem requests_sortItem_perm (i : Item) : (sortItem i).requests.Perm i.requests := by
  induction i using Item.induct with
  | folder name description items ih =>
    rw [sortItem_folder, requests_folder, requests_folder]
    refine ((List.mergeSort_perm _ _).flatMap_right _).trans ?_
    rw [List.flatMap_map]
    exact List.Perm.flatMap_left _ ih
  | request r => exact .refl _

/-- Every folder below a node is ordered by rank. -/
inductive InOrder : Item → Prop where
  | folder {name : String} {description : Option String} {items : List Item} :
      items.Pairwise (fun a b => rank a ≤ rank b) → (∀ i ∈ items, InOrder i) →
      InOrder (.folder name description items)
  | request (r : RequestItem) : InOrder (.request r)

theorem pairwise_mergeSort_rank (items : List Item) :
    (items.mergeSort precedes).Pairwise fun a b => rank a ≤ rank b :=
  (List.pairwise_mergeSort precedes_trans precedes_total items).imp precedes_iff.1

private theorem mergeSort_eq_self {items : List Item}
    (ordered : items.Pairwise fun a b => rank a ≤ rank b) : items.mergeSort precedes = items :=
  List.mergeSort_of_pairwise (ordered.imp precedes_iff.2)

theorem sortItem_inOrder (i : Item) : InOrder (sortItem i) := by
  induction i using Item.induct with
  | folder name description items ih =>
    rw [sortItem_folder]
    refine .folder (pairwise_mergeSort_rank _) ?_
    intro j hj
    obtain ⟨i, hi, rfl⟩ := List.mem_map.1 ((List.mergeSort_perm _ _).subset hj)
    exact ih i hi
  | request r => exact .request r

theorem sortItem_eq_self {i : Item} (ordered : InOrder i) : sortItem i = i := by
  induction i using Item.induct with
  | folder name description items ih =>
    cases ordered with
    | folder pairwise below =>
      have same : items.map sortItem = items := by
        conv_rhs => rw [← List.map_id' items]
        exact List.map_inj_left.2 fun i hi => ih i hi (below i hi)
      rw [sortItem_folder, same, mergeSort_eq_self pairwise]
  | request r => rfl

private theorem rank_eq_of_alike {R : RequestItem → RequestItem → Prop}
    (ranks : ∀ r s, R r s → rank (.request r) = rank (.request s)) {i j : Item}
    (alike : Alike R i j) : rank i = rank j := by
  cases alike with
  | folder below => rfl
  | request related => exact ranks _ _ related

/-- The order depends on the ranks of the requests only. -/
theorem InOrder.alike {R : RequestItem → RequestItem → Prop}
    (ranks : ∀ r s, R r s → rank (.request r) = rank (.request s)) {i j : Item}
    (alike : Alike R i j) (ordered : InOrder i) : InOrder j := by
  induction i using Item.induct generalizing j with
  | folder name description items ih =>
    cases alike with
    | @folder _ _ _ others below =>
      cases ordered with
      | folder pairwise each =>
        have keys : items.map rank = others.map rank := by
          rw [← List.forall₂_eq_eq_eq, List.forall₂_map_left_iff, List.forall₂_map_right_iff]
          exact below.imp fun _ _ => rank_eq_of_alike ranks
        have pairs : others.Pairwise fun a b => rank a ≤ rank b := by
          have byKey : (items.map rank).Pairwise (· ≤ ·) := List.pairwise_map.2 pairwise
          rw [keys] at byKey
          exact List.pairwise_map.1 byKey
        refine .folder pairs ?_
        clear pairwise keys pairs
        induction below with
        | nil => simp
        | cons head tail ihTail =>
          rw [List.forall_mem_cons] at each ih ⊢
          exact ⟨ih.1 head each.1, ihTail ih.2 each.2⟩
  | request r =>
    cases alike with
    | request related => exact .request _

section Return

variable {α : Type} {key weight : α → Nat} {h : α → α}

/-- A sum that a map of a list keeps, though no summand grows, keeps each summand. -/
theorem eq_of_perm_map_le {f : α → Nat} {l : List α} (perm : (l.map h).Perm l)
    (le : ∀ a ∈ l, f (h a) ≤ f a) : ∀ a ∈ l, f (h a) = f a := by
  intro a ha
  by_contra differ
  have lt : (l.map fun a => f (h a)).sum < (l.map f).sum :=
    List.sum_lt_sum (f := fun a => f (h a)) (g := f) le ⟨a, ha, lt_of_le_of_ne (le a ha) differ⟩
  have same : (l.map fun a => f (h a)).sum = (l.map f).sum := by
    have := (perm.map f).sum_eq
    rwa [List.map_map] at this
  omega

/-- The members of a sorted list are replaced, and sorting gives the list again. When each loss of
rank costs weight, which nothing gives back, then all members are the old ones. -/
theorem map_eq_self_of_mergeSort {before : α → α → Bool} {l : List α}
    (iff : ∀ a b, before a b = true ↔ key a ≤ key b)
    (ordered : l.Pairwise fun a b => key a ≤ key b)
    (comes : (l.map h).mergeSort before = l) (le : ∀ a ∈ l, weight (h a) ≤ weight a)
    (costs : ∀ a ∈ l, key (h a) < key a → weight (h a) < weight a) : l.map h = l := by
  have perm : (l.map h).Perm l := by
    have := List.mergeSort_perm (l.map h) before
    rw [comes] at this
    exact this.symm
  have weights := eq_of_perm_map_le perm le
  have keys : ∀ a ∈ l, key (h a) = key a := by
    -- No key gets smaller, since that would cost weight, so none gets larger either.
    have ge : ∀ a ∈ l, key a ≤ key (h a) := by
      intro a ha
      by_contra less
      have := costs a ha (Nat.lt_of_not_le less)
      have := weights a ha
      omega
    intro a ha
    by_contra differ
    have lt : (l.map key).sum < (l.map fun a => key (h a)).sum :=
      List.sum_lt_sum (f := key) (g := fun a => key (h a)) ge
        ⟨a, ha, lt_of_le_of_ne (ge a ha) (Ne.symm differ)⟩
    have same : (l.map fun a => key (h a)).sum = (l.map key).sum := by
      have := (perm.map key).sum_eq
      rwa [List.map_map] at this
    omega
  have sorted : (l.map h).Pairwise fun a b => key a ≤ key b := by
    rw [List.pairwise_map]
    refine ordered.imp_of_mem ?_
    intro a b ha hb hab
    rwa [keys a ha, keys b hb]
  rwa [List.mergeSort_of_pairwise (sorted.imp (iff _ _).2)] at comes

end Return

def nodeWeight (weight : RequestItem → Nat) : Item → Nat
  | .folder _ _ _ => 0
  | .request r => weight r

/-- A tree that is sorted again after its requests were replaced, and is the old tree then, has
kept its requests, when each loss of rank costs a weight of the requests. -/
theorem map_eq_self_of_sortItem {f : RequestItem → RequestItem} {weight : RequestItem → Nat}
    (le : ∀ r, weight (f r) ≤ weight r)
    (costs : ∀ r, rank (.request (f r)) < rank (.request r) → weight (f r) < weight r) {i : Item}
    (ordered : InOrder i) (comes : sortItem (i.map f) = i) : i.map f = i := by
  induction i using Item.induct with
  | folder name description items ih =>
    rw [map_folder, sortItem_folder, folder.injEq, List.map_map] at comes
    obtain ⟨-, -, comes⟩ := comes
    cases ordered with
    | folder pairwise below =>
      have nodes : items.map (sortItem ∘ map f) = items := by
        refine map_eq_self_of_mergeSort (fun a b => precedes_iff (a := a) (b := b)) pairwise comes
          (show ∀ i ∈ items, nodeWeight weight (sortItem (i.map f)) ≤ nodeWeight weight i from ?_)
          ?_
        · rintro (⟨name, description, items⟩ | r) -
          · simp [nodeWeight]
          · exact le r
        · rintro (⟨name, description, items⟩ | r) - less
          · simp [rank] at less
          · exact costs r less
      have each : ∀ i ∈ items, sortItem (i.map f) = i := by
        rw [← List.map_inj_left, List.map_id']
        exact nodes
      rw [map_folder]
      congr 1
      conv_rhs => rw [← List.map_id' items]
      refine List.map_inj_left.2 ?_
      intro i hi
      exact ih i hi (below i hi) (each i hi)
  | request r => exact comes

end ApiCollection.Enhancement
