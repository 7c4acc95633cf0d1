import ApiCollection.Enhancement.Basic
import Mathlib.Data.List.Forall2

/-!
# Trees of folders and requests

A pass over a collection replaces its requests and keeps the tree, or orders the tree and keeps the
requests. Both are described node by node, so that what holds of the requests follows for the tree.
-/

namespace ApiCollection

namespace Item

/-- What holds of requests, and of a folder when it holds of everything in it, holds of all nodes. -/
@[elab_as_elim]
theorem induct {motive : Item → Prop}
    (folder : ∀ name description items, (∀ i ∈ items, motive i) →
      motive (.folder name description items))
    (request : ∀ r, motive (.request r)) : ∀ i, motive i
  | .folder name description items =>
    folder name description items fun i _ => induct folder request i
  | .request r => request r
termination_by i => sizeOf i
decreasing_by
  rename_i h
  have := List.sizeOf_lt_of_mem h
  simp only [Item.folder.sizeOf_spec]
  omega

theorem requestsOf_eq_flatMap (items : List Item) : requestsOf items = items.flatMap requests := by
  induction items with
  | nil => rfl
  | cons i items ih => simp [requestsOf, ih]

@[simp] theorem requests_folder (name : String) (description : Option String) (items : List Item) :
    (Item.folder name description items).requests = items.flatMap requests :=
  requestsOf_eq_flatMap items

@[simp] theorem requests_request (r : RequestItem) : (Item.request r).requests = [r] := rfl

mutual

def map (f : RequestItem → RequestItem) : Item → Item
  | .folder name description items => .folder name description (mapAll f items)
  | .request r => .request (f r)

def mapAll (f : RequestItem → RequestItem) : List Item → List Item
  | [] => []
  | i :: rest => i.map f :: mapAll f rest

end

private theorem mapAll_eq_map (f : RequestItem → RequestItem) (items : List Item) :
    mapAll f items = items.map (map f) := by
  induction items with
  | nil => rfl
  | cons i items ih => simp [mapAll, ih]

@[simp] theorem map_folder (f : RequestItem → RequestItem) (name : String)
    (description : Option String) (items : List Item) :
    (Item.folder name description items).map f = .folder name description (items.map (map f)) := by
  rw [map, mapAll_eq_map]

@[simp] theorem map_request (f : RequestItem → RequestItem) (r : RequestItem) :
    (Item.request r).map f = .request (f r) := rfl

theorem requests_map (f : RequestItem → RequestItem) (i : Item) :
    (i.map f).requests = i.requests.map f := by
  induction i using induct with
  | folder name description items ih =>
    simp only [map_folder, requests_folder, List.map_flatMap, List.flatMap_map]
    exact List.flatMap_congr ih
  | request r => rfl

theorem map_map (f g : RequestItem → RequestItem) (i : Item) :
    (i.map f).map g = i.map fun r => g (f r) := by
  induction i using induct with
  | folder name description items ih => simpa using ih
  | request r => rfl

/-- A node stays as it is exactly when all its requests do. -/
theorem map_eq_self_iff {f : RequestItem → RequestItem} {i : Item} :
    i.map f = i ↔ ∀ r ∈ i.requests, f r = r := by
  induction i using induct with
  | folder name description items ih =>
    have whole : items.map (map f) = items ↔ ∀ i ∈ items, i.map f = i := by
      rw [← List.map_inj_left, List.map_id']
    simp only [map_folder, folder.injEq, true_and, requests_folder, List.mem_flatMap, whole]
    constructor
    · rintro same r ⟨i, hi, hr⟩
      exact (ih i hi).1 (same i hi) r hr
    · intro same i hi
      exact (ih i hi).2 fun r hr => same r ⟨i, hi, hr⟩
  | request r => simp

section Visit

variable {m : Type → Type} [Monad m] [LawfulMonad m]

theorem visitAll_eq_mapM (f : RequestItem → m RequestItem) (items : List Item) :
    visitAll f items = items.mapM (visit f) := by
  induction items with
  | nil => simp [visitAll]
  | cons i items ih => simp [visitAll, ih]

theorem mapM_eq_pure {α β : Type} {f : α → m β} {g : α → β} {l : List α}
    (pureAt : ∀ a ∈ l, f a = pure (g a)) : l.mapM f = pure (l.map g) := by
  induction l with
  | nil => simp
  | cons a l ih =>
    rw [List.mapM_cons, pureAt a List.mem_cons_self,
      ih fun b hb => pureAt b (List.mem_cons_of_mem a hb)]
    simp

/-- A visit without effects replaces the requests. -/
theorem visit_eq_pure {f : RequestItem → m RequestItem} {g : RequestItem → RequestItem} {i : Item}
    (pureAt : ∀ r ∈ i.requests, f r = pure (g r)) : i.visit f = pure (i.map g) := by
  induction i using induct with
  | folder name description items ih =>
    rw [requests_folder] at pureAt
    have each : ∀ i ∈ items, i.visit f = pure (i.map g) := fun i hi =>
      ih i hi fun r hr => pureAt r (List.mem_flatMap.2 ⟨i, hi, hr⟩)
    simp [visit, visitAll_eq_mapM, mapM_eq_pure each]
  | request r => simp [visit, pureAt r List.mem_cons_self]

theorem visitAll_eq_pure {f : RequestItem → m RequestItem} {g : RequestItem → RequestItem}
    {items : List Item} (pureAt : ∀ r ∈ requestsOf items, f r = pure (g r)) :
    visitAll f items = pure (items.map (map g)) := by
  rw [requestsOf_eq_flatMap] at pureAt
  have each : ∀ i ∈ items, i.visit f = pure (i.map g) := fun i hi =>
    visit_eq_pure fun r hr => pureAt r (List.mem_flatMap.2 ⟨i, hi, hr⟩)
  rw [visitAll_eq_mapM, mapM_eq_pure each]

end Visit

/-- Two nodes with the same folders and with requests that are related one by one. -/
inductive Alike (R : RequestItem → RequestItem → Prop) : Item → Item → Prop where
  | folder {name : String} {description : Option String} {items others : List Item} :
      List.Forall₂ (Alike R) items others →
      Alike R (.folder name description items) (.folder name description others)
  | request {r s : RequestItem} : R r s → Alike R (.request r) (.request s)

variable {R : RequestItem → RequestItem → Prop}

theorem Alike.requests {i j : Item} (alike : Alike R i j) :
    List.Forall₂ R i.requests j.requests := by
  induction i using induct generalizing j with
  | folder name description items ih =>
    cases alike with
    | @folder _ _ _ others below =>
      rw [requests_folder, requests_folder]
      clear * - ih below
      induction below with
      | nil => exact .nil
      | cons head tail ihTail =>
        rw [List.flatMap_cons, List.flatMap_cons]
        exact List.rel_append (ih _ List.mem_cons_self head)
          (ihTail fun i hi => ih i (List.mem_cons_of_mem _ hi))
  | request r =>
    cases alike with
    | request related => exact .cons related .nil

theorem Alike.imp {S : RequestItem → RequestItem → Prop} (weaker : ∀ r s, R r s → S r s)
    {i j : Item} (alike : Alike R i j) : Alike S i j := by
  induction i using induct generalizing j with
  | folder name description items ih =>
    cases alike with
    | @folder _ _ _ others below =>
      refine .folder ?_
      clear * - ih below
      induction below with
      | nil => exact .nil
      | cons head tail ihTail =>
        rw [List.forall_mem_cons] at ih
        exact .cons (ih.1 head) (ihTail ih.2)
  | request r =>
    cases alike with
    | request related => exact .request (weaker _ _ related)

/-- A visit in a state gives a tree of the same shape. -/
theorem visit_alike {σ : Type} (f : RequestItem → StateM σ RequestItem) (i : Item) (s : σ) :
    Alike (fun r r' => ∃ s, ((f r).run s).1 = r') i ((i.visit f).run s).1 := by
  induction i using induct generalizing s with
  | folder name description items ih =>
    have below : ∀ s, List.Forall₂ (Alike fun r r' => ∃ s, ((f r).run s).1 = r') items
        ((items.mapM (visit f)).run s).1 := by
      clear name description s
      induction items with
      | nil => exact fun _ => .nil
      | cons i items ihItems =>
        intro s
        rw [List.mapM_cons]
        exact .cons (ih i List.mem_cons_self s)
          (ihItems (fun j hj => ih j (List.mem_cons_of_mem _ hj)) _)
    rw [visit, visitAll_eq_mapM]
    exact .folder (below s)
  | request r => exact .request ⟨s, rfl⟩

theorem visitAll_alike {σ : Type} (f : RequestItem → StateM σ RequestItem) (items : List Item)
    (s : σ) : List.Forall₂ (Alike fun r r' => ∃ s, ((f r).run s).1 = r') items
      ((visitAll f items).run s).1 := by
  have whole := visit_alike f (.folder "" none items) s
  cases whole with
  | folder below => exact below

end Item
end ApiCollection
