import ApiCollection.Proofs.CollectionTree
import ApiCollection.Proofs.DisplayName
import ApiCollection.Proofs.EnhancedRequest
import ApiCollection.Proofs.RequestOrder
import ApiCollection.Proofs.TableEntries

/-!
# Repeated enhancement

A second run of an enhancer leaves a collection as the first run left it exactly when all names of
the requests are settled. Verbs in front of a name are left out one at a time, so a name with two of
them is not.
-/

namespace ApiCollection

open Enhancement ApiCollection.Random

namespace Enhancement

theorem has_discover {known : Table String} {keys : List String} {key : String} :
    (discover known keys).has key = true ↔ known.has key = true ∨ key ∈ keys := by
  induction keys generalizing known with
  | nil => simp [discover]
  | cons first keys ih =>
    have step : discover known (first :: keys) = discover (known.insertNew first firstValue) keys :=
      rfl
    rw [step, ih, Table.has_insertNew, List.mem_cons, or_assoc, eq_comm (a := first)]

private theorem discover_of_has {known : Table String} {keys : List String}
    (h : ∀ key ∈ keys, known.has key = true) : discover known keys = known := by
  induction keys with
  | nil => rfl
  | cons first keys ih =>
    rw [List.forall_mem_cons] at h
    have step : discover known (first :: keys) = discover (known.insertNew first firstValue) keys :=
      rfl
    rw [step, Table.insertNew_of_has h.1, ih h.2]

end Enhancement

namespace Collection

theorem hasVariable_iff {c : Collection} {key : String} :
    c.hasVariable key = true ↔ ∃ v ∈ c.sharedVariables, v.key = key := by
  simp [hasVariable, findVariable?, List.find?_isSome]

/-- The variables that are added do not depend on the tree. -/
theorem addVariable_with_items (c : Collection) (items : List Item) (key value : String) :
    ({ c with items := items } : Collection).addVariable key value =
      { c.addVariable key value with items := items } := by
  have same : ({ c with items := items } : Collection).hasVariable key = c.hasVariable key := rfl
  rw [addVariable, addVariable, same]
  split <;> rfl

@[simp] theorem addVariable_items (c : Collection) (key value : String) :
    (c.addVariable key value).items = c.items := by
  have same := congrArg items (addVariable_with_items c c.items key value)
  exact same

theorem addVariable_of_has {c : Collection} {key : String} (value : String)
    (h : c.hasVariable key = true) : c.addVariable key value = c := if_pos h

theorem hasVariable_addVariable {c : Collection} {key other value : String} :
    (c.addVariable key value).hasVariable other = true ↔
      c.hasVariable other = true ∨ key = other := by
  rw [addVariable]
  split
  · constructor
    · exact .inl
    · rintro (has | rfl)
      · exact has
      · assumption
  · rw [hasVariable_iff, hasVariable_iff]
    simp [or_and_right, exists_or, Variable.text]

theorem addVariables_with_items (c : Collection) (items : List Item) (found : Table String) :
    ({ c with items := items } : Collection).addVariables found =
      { c.addVariables found with items := items } := by
  induction found generalizing c with
  | nil => rfl
  | cons e found ih =>
    have step (c : Collection) :
        c.addVariables (e :: found) = (c.addVariable e.1 e.2).addVariables found := rfl
    rw [step, step, addVariable_with_items, ih]

@[simp] theorem addVariables_items (c : Collection) (found : Table String) :
    (c.addVariables found).items = c.items := by
  have same := congrArg items (addVariables_with_items c c.items found)
  exact same

theorem hasVariable_addVariables {c : Collection} {found : Table String} {key : String} :
    (c.addVariables found).hasVariable key = true ↔
      c.hasVariable key = true ∨ found.has key = true := by
  induction found generalizing c with
  | nil => simp [addVariables, Table.has]
  | cons e found ih =>
    have step : c.addVariables (e :: found) = (c.addVariable e.1 e.2).addVariables found := rfl
    rw [step, ih, hasVariable_addVariable, or_assoc, Table.has, Table.has, List.any_cons,
      Bool.or_eq_true, beq_iff_eq]

theorem addVariables_of_has {c : Collection} {found : Table String}
    (h : ∀ key, found.has key = true → c.hasVariable key = true) : c.addVariables found = c := by
  induction found with
  | nil => rfl
  | cons e found ih =>
    have step : c.addVariables (e :: found) = (c.addVariable e.1 e.2).addVariables found := rfl
    have first : c.hasVariable e.1 = true := h e.1 (by simp [Table.has])
    rw [step, addVariable_of_has e.2 first]
    refine ih fun key has => h key ?_
    rw [Table.has, List.any_cons, Bool.or_eq_true]
    exact .inr has

theorem mapRequests_eq (f : RequestItem → RequestItem) (c : Collection) :
    c.mapRequests f = { c with items := c.items.map (Item.map f) } := by
  have each : Item.visitAll (m := Id) (fun r => pure (f r)) c.items =
      pure (c.items.map (Item.map f)) := Item.visitAll_eq_pure fun _ _ => rfl
  rw [mapRequests, visit, each]
  rfl

theorem requests_map (f : RequestItem → RequestItem) (items : List Item) :
    Item.requestsOf (items.map (Item.map f)) = (Item.requestsOf items).map f := by
  rw [Item.requestsOf_eq_flatMap, Item.requestsOf_eq_flatMap, List.flatMap_map, List.map_flatMap]
  exact List.flatMap_congr fun i _ => Item.requests_map f i

end Collection

namespace Enhancer

def arranged (items : List Item) : List Item := sortItems (items.map (Item.map prepare))

section Run

variable (e : Enhancer) (c : Collection)

@[simp] theorem addVariables_items : (e.addVariables c).items = c.items := by
  simp [Enhancer.addVariables]

theorem enhance_discovered : (e.enhance c).2.discovered = discover e.discovered c.referenced := by
  have known : (e.addVariables c).completeHeaders.referenced = c.referenced := by
    rw [Collection.completeHeaders, Collection.mapRequests_eq, Collection.referenced,
      Collection.requests, Collection.requests_map, List.flatMap_map, addVariables_items]
    rfl
  rw [← known]
  rfl

theorem enhance_eq : (e.enhance c).1 =
    { (e.addVariables c).addVariables (e.enhance c).2.discovered with
      items := ((Item.visitAll (Enhancement.completeResponses e.cache) (arranged c.items)).run
        e.stream).1 } := by
  have passed : (((e.addVariables c).completeHeaders.mapRequests referRequest).addVariables
      (e.enhance c).2.discovered).improveNames.sort =
      { (e.addVariables c).addVariables (e.enhance c).2.discovered with
        items := arranged c.items } := by
    simp only [Collection.sort, Collection.improveNames, Collection.completeHeaders,
      Collection.mapRequests_eq, Collection.addVariables_with_items, List.map_map,
      Function.comp_def, Item.map_map, addVariables_items]
    rfl
  have whole : (e.enhance c).1 = (((((e.addVariables c).completeHeaders.mapRequests
      referRequest).addVariables (e.enhance c).2.discovered).improveNames.sort.visit
      (Enhancement.completeResponses e.cache)).run e.stream).1 := rfl
  rw [whole, passed]
  rfl

theorem enhance_items : (e.enhance c).1.items =
    ((Item.visitAll (Enhancement.completeResponses e.cache) (arranged c.items)).run e.stream).1 :=
  congrArg Collection.items (enhance_eq e c)

theorem hasVariable_enhance {key : String}
    (h : key = "baseUrl" ∨ key = "token" ∨ (e.enhance c).2.discovered.has key = true) :
    (e.enhance c).1.hasVariable key = true := by
  have shared : (e.enhance c).1.hasVariable key =
      ((e.addVariables c).addVariables (e.enhance c).2.discovered).hasVariable key := by
    rw [enhance_eq]
    rfl
  rw [shared, Collection.hasVariable_addVariables, Enhancer.addVariables,
    Collection.hasVariable_addVariables, Collection.hasVariable_addVariable,
    Collection.hasVariable_addVariable]
  obtain rfl | rfl | met := h
  · exact .inl (.inl (.inl (.inr rfl)))
  · exact .inl (.inl (.inr rfl))
  · exact .inr met

/-- A second run finds all variables of the first one. -/
theorem addVariables_enhance : (e.enhance c).2.addVariables (e.enhance c).1 = (e.enhance c).1 := by
  have base := hasVariable_enhance e c (.inl rfl)
  have token := hasVariable_enhance e c (.inr (.inl rfl))
  rw [Enhancer.addVariables, Collection.addVariable_of_has _ base,
    Collection.addVariable_of_has _ token]
  exact Collection.addVariables_of_has fun key met =>
    hasVariable_enhance e c (.inr (.inr met))

theorem requestsOf_sortItems_perm (items : List Item) :
    (Item.requestsOf (sortItems items)).Perm (Item.requestsOf items) := by
  have folder := requests_sortItem_perm (.folder "" none items)
  rw [sortItem_folder, ← sortItems_eq] at folder
  exact folder

theorem requestsOf_arranged_perm (items : List Item) :
    (Item.requestsOf (arranged items)).Perm ((Item.requestsOf items).map prepare) := by
  rw [← Collection.requests_map]
  exact requestsOf_sortItems_perm _

theorem forall₂_members {α β : Type} {R : α → β → Prop} {l : List α} {m : List β}
    (h : List.Forall₂ R l m) : (∀ a ∈ l, ∃ b ∈ m, R a b) ∧ ∀ b ∈ m, ∃ a ∈ l, R a b := by
  induction h with
  | nil => simp
  | cons related _ ih =>
    constructor
    · rw [List.forall_mem_cons]
      refine ⟨⟨_, List.mem_cons_self, related⟩, ?_⟩
      intro a ha
      obtain ⟨b, hb, related⟩ := ih.1 a ha
      exact ⟨b, List.mem_cons_of_mem _ hb, related⟩
    · rw [List.forall_mem_cons]
      refine ⟨⟨_, List.mem_cons_self, related⟩, ?_⟩
      intro b hb
      obtain ⟨a, ha, related⟩ := ih.2 b hb
      exact ⟨a, List.mem_cons_of_mem _ ha, related⟩

/-- What completing the responses in some state makes of a request. -/
def Completed (cache : Dto.Cache) (r s : RequestItem) : Prop :=
  ∃ stream, ((Enhancement.completeResponses cache r).run stream).1 = s

theorem alike_enhance : List.Forall₂ (Item.Alike (Completed e.cache)) (arranged c.items)
    (e.enhance c).1.items := by
  rw [enhance_items]
  exact Item.visitAll_alike _ _ _

theorem requests_enhance : List.Forall₂ (Completed e.cache) (Item.requestsOf (arranged c.items))
    (e.enhance c).1.requests := by
  have folders : Item.Alike (Completed e.cache) (.folder "" none (arranged c.items))
      (.folder "" none (e.enhance c).1.items) := .folder (alike_enhance e c)
  exact folders.requests

/-- Each request behind a run was a request, and each request is one behind the run. -/
theorem became_enhance : (∀ r ∈ c.requests, ∃ s ∈ (e.enhance c).1.requests, Became r s) ∧
    ∀ s ∈ (e.enhance c).1.requests, ∃ r ∈ c.requests, Became r s := by
  obtain ⟨onward, backward⟩ := forall₂_members (requests_enhance e c)
  have prepared := requestsOf_arranged_perm c.items
  constructor
  · intro r hr
    obtain ⟨s, hs, stream, rfl⟩ := onward (prepare r) (prepared.symm.subset (List.mem_map_of_mem hr))
    exact ⟨_, hs, became_completeResponses e.cache r stream⟩
  · intro s hs
    obtain ⟨t, ht, stream, rfl⟩ := backward s hs
    obtain ⟨r, hr, rfl⟩ := List.mem_map.1 (prepared.subset ht)
    exact ⟨r, hr, became_completeResponses e.cache r stream⟩

private theorem rank_completed {cache : Dto.Cache} {r s : RequestItem} (h : Completed cache r s) :
    rank (.request r) = rank (.request s) := by
  obtain ⟨stream, rfl⟩ := h
  obtain ⟨responses, same, -⟩ := completeResponses_run cache r stream
  rw [same]
  rfl

theorem inOrder_enhance : InOrder (.folder "" none (e.enhance c).1.items) := by
  have sorted := sortItem_inOrder (.folder "" none (c.items.map (Item.map prepare)))
  rw [sortItem_folder, ← sortItems_eq] at sorted
  exact sorted.alike (fun r s => rank_completed) (.folder (alike_enhance e c))

def ligatureWeight (r : RequestItem) : Nat := Text.ligatureCount r.name.toList

theorem tame_prepare (r : RequestItem) : Tame (prepare r).name.toList r.name.toList :=
  tame_displayName r.name r.request.method

/-- A request that moves to the front in a run has lost a ligature of its name. -/
theorem ligatureWeight_prepare_lt {r : RequestItem}
    (h : rank (.request (prepare r)) < rank (.request r)) :
    ligatureWeight (prepare r) < ligatureWeight r := by
  have method : (prepare r).request.method = r.request.method := rfl
  rw [rank, rank, method] at h
  have gained : namesList (prepare r).name = true ∧ ¬namesList r.name = true := by
    by_cases new : namesList (prepare r).name = true
    · by_cases old : namesList r.name = true
      · rw [if_pos new, if_pos old] at h
        omega
      · exact ⟨new, old⟩
    · rw [if_neg new] at h
      split at h <;> omega
  obtain speaks | less := (tame_prepare r).speaks ((namesList_iff _).1 gained.1)
  · exact absurd ((namesList_iff _).2 speaks) gained.2
  · exact less

/-- The second run has no response to add. -/
theorem enhance_enhance_items : ((e.enhance c).2.enhance (e.enhance c).1).1.items =
    arranged (e.enhance c).1.items := by
  have complete : ∀ t ∈ Item.requestsOf (arranged (e.enhance c).1.items),
      Enhancement.completeResponses (e.enhance c).2.cache t = pure t := by
    intro t ht
    obtain ⟨s, hs, rfl⟩ := List.mem_map.1 ((requestsOf_arranged_perm _).subset ht)
    obtain ⟨r, -, became⟩ := (became_enhance e c).2 s hs
    exact completeResponses_of_hasPlanned _ became.hasPlanned_prepare
  have same : (arranged (e.enhance c).1.items).map (Item.map fun r => r) =
      arranged (e.enhance c).1.items := by
    conv_rhs => rw [← List.map_id' (arranged (e.enhance c).1.items)]
    exact List.map_inj_left.2 fun i _ => Item.map_eq_self_iff.2 fun _ _ => rfl
  rw [enhance_items, Item.visitAll_eq_pure complete, same]
  rfl

/-- When ordering brings a prepared collection back, then preparing has changed no request. -/
theorem prepare_eq_of_arranged_eq (h : arranged (e.enhance c).1.items = (e.enhance c).1.items) :
    ∀ s ∈ (e.enhance c).1.requests, prepare s = s := by
  have comes : sortItem ((Item.folder "" none (e.enhance c).1.items).map prepare) =
      .folder "" none (e.enhance c).1.items := by
    rw [Item.map_folder, sortItem_folder, ← sortItems_eq]
    exact congrArg _ h
  have weight (r : RequestItem) : ligatureWeight (prepare r) ≤ ligatureWeight r :=
    (tame_prepare r).ligatures
  have same := map_eq_self_of_sortItem weight (fun _ => ligatureWeight_prepare_lt)
    (inOrder_enhance e c) comes
  exact Item.map_eq_self_iff.1 same

private theorem arranged_eq_of_prepare_eq (h : ∀ s ∈ (e.enhance c).1.requests, prepare s = s) :
    arranged (e.enhance c).1.items = (e.enhance c).1.items := by
  have same : (Item.folder "" none (e.enhance c).1.items).map prepare =
      .folder "" none (e.enhance c).1.items := Item.map_eq_self_iff.2 h
  have ordered := sortItem_eq_self (inOrder_enhance e c)
  rw [← same, Item.map_folder, sortItem_folder, ← sortItems_eq] at ordered
  rw [Item.map_folder, Item.folder.injEq] at same
  rw [Item.folder.injEq] at ordered
  exact ordered.2.2.trans same.2.2

/-- The second run meets no variable that the first one has not met, when names are settled. -/
theorem discovered_enhance (settled : ∀ r ∈ c.requests, NameSettles r) :
    ((e.enhance c).2.enhance (e.enhance c).1).2.discovered = (e.enhance c).2.discovered := by
  rw [enhance_discovered]
  apply discover_of_has
  intro key member
  obtain ⟨s, hs, member⟩ := List.mem_flatMap.1 member
  obtain ⟨r, hr, became⟩ := (became_enhance e c).2 s hs
  have met := became.requestVariables_subset (settled r hr) member
  rw [enhance_discovered, has_discover]
  exact .inr (List.mem_flatMap.2 ⟨r, hr, met⟩)

theorem nameSettles_of_enhance_enhance_eq
    (same : ((e.enhance c).2.enhance (e.enhance c).1).1 = (e.enhance c).1) :
    ∀ r ∈ c.requests, NameSettles r := by
  intro r hr
  have items := congrArg Collection.items same
  rw [enhance_enhance_items] at items
  obtain ⟨s, hs, became⟩ := (became_enhance e c).1 r hr
  exact became.prepare_eq_self_iff.1 (prepare_eq_of_arranged_eq e c items s hs)

private theorem enhance_enhance_eq_of_nameSettles (settled : ∀ r ∈ c.requests, NameSettles r) :
    ((e.enhance c).2.enhance (e.enhance c).1).1 = (e.enhance c).1 := by
  have prepared : ∀ s ∈ (e.enhance c).1.requests, prepare s = s := by
    intro s hs
    obtain ⟨r, hr, became⟩ := (became_enhance e c).2 s hs
    exact became.prepare_eq_self_iff.2 (settled r hr)
  have items := enhance_enhance_items e c
  rw [arranged_eq_of_prepare_eq e c prepared] at items
  have known : ((e.enhance c).2.addVariables (e.enhance c).1).addVariables
      (e.enhance c).2.discovered = (e.enhance c).1 := by
    rw [addVariables_enhance]
    exact Collection.addVariables_of_has fun key met =>
      hasVariable_enhance e c (.inr (.inr met))
  rw [enhance_eq, discovered_enhance e c settled, known, ← enhance_items, items]

end Run

/-- A second run leaves the collection as the first one left it exactly when the display name of
every request is its own display name and suggests the same variables as the name. -/
theorem enhance_enhance_eq_iff (e : Enhancer) (c : Collection) :
    ((e.enhance c).2.enhance (e.enhance c).1).1 = (e.enhance c).1 ↔
      ∀ r ∈ c.requests, NameSettles r :=
  ⟨nameSettles_of_enhance_enhance_eq e c, enhance_enhance_eq_of_nameSettles e c⟩

def twoVerbs : RequestItem :=
  { name := "get get users"
    request := {
      method := "OPTIONS"
      url := { host := ["\x7b\x7bbaseUrl\x7d\x7d"], path := ["users"] } } }

/-- The second run takes the second verb from the name. -/
theorem enhance_enhance_ne_of_twoVerbs :
    ¬∀ (e : Enhancer) (c : Collection),
      ((e.enhance c).2.enhance (e.enhance c).1).1 = (e.enhance c).1 := by
  intro same
  let e : Enhancer := { stream := .ofSeed 0 }
  let c : Collection := { Collection.named "Demo" with items := [.request twoVerbs] }
  have settled := nameSettles_of_enhance_enhance_eq e c (same e c) twoVerbs List.mem_cons_self
  have unsettled : displayName (displayName "get get users" "OPTIONS") "OPTIONS" ≠
      displayName "get get users" "OPTIONS" := by decide +kernel
  exact unsettled settled.1

end Enhancer
end ApiCollection
