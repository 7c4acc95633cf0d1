import ApiCollection.Proofs.Enhancement

/-!
# What enhancement keeps

A run keeps the folders of a collection, and of each request what its author has written. Headers,
responses and variables are only added behind those that are there, and only when their names are
new.
-/

namespace ApiCollection

open Enhancement ApiCollection.Random

section Growth

variable {α : Type} {key : α → String} {old new newer : List α}

/-- A list with members behind those of another one, all with keys of their own. -/
def AppendsNew (key : α → String) (old new : List α) : Prop :=
  ∃ added, new = old ++ added ∧ (added.map key).Nodup ∧ ∀ a ∈ added, key a ∉ old.map key

theorem AppendsNew.refl (key : α → String) (old : List α) : AppendsNew key old old :=
  ⟨[], (List.append_nil old).symm, by simp, by simp⟩

theorem appendsNew_singleton {a : α} (absent : key a ∉ old.map key) :
    AppendsNew key old (old ++ [a]) :=
  ⟨[a], rfl, by simp, by simpa using absent⟩

theorem AppendsNew.subset (h : AppendsNew key old new) : old ⊆ new := by
  obtain ⟨added, rfl, -⟩ := h
  exact List.subset_append_left old added

theorem AppendsNew.nodup (h : AppendsNew key old new) (distinct : (old.map key).Nodup) :
    (new.map key).Nodup := by
  obtain ⟨added, rfl, nodup, absent⟩ := h
  rw [List.map_append, List.nodup_append]
  refine ⟨distinct, nodup, ?_⟩
  intro k hk l hl same
  obtain ⟨a, ha, rfl⟩ := List.mem_map.1 hl
  exact absent a ha (same ▸ hk)

theorem AppendsNew.trans (first : AppendsNew key old new) (second : AppendsNew key new newer) :
    AppendsNew key old newer := by
  obtain ⟨added, rfl, nodup, absent⟩ := first
  obtain ⟨later, rfl, laterNodup, laterAbsent⟩ := second
  simp only [List.map_append, List.mem_append, not_or] at laterAbsent
  have grown : AppendsNew key added (added ++ later) :=
    ⟨later, rfl, laterNodup, fun a ha => (laterAbsent a ha).2⟩
  refine ⟨added ++ later, List.append_assoc old added later, grown.nodup nodup, ?_⟩
  intro a member
  rcases List.mem_append.1 member with member | member
  · exact absent a member
  · exact (laterAbsent a member).1

end Growth

namespace Item

/-- Two nodes with the same folders and with requests that are related one by one, up to the order
of the nodes in each folder. -/
inductive Rearranged (R : RequestItem → RequestItem → Prop) : Item → Item → Prop where
  | folder {name : String} {description : Option String} {items moved others : List Item} :
      List.Forall₂ (Rearranged R) items moved → moved.Perm others →
      Rearranged R (.folder name description items) (.folder name description others)
  | request {r s : RequestItem} : R r s → Rearranged R (.request r) (.request s)

variable {R S : RequestItem → RequestItem → Prop}

private theorem rearranged_sortItem {f : RequestItem → RequestItem} (related : ∀ r, R r (f r))
    (i : Item) :
    Rearranged R i (sortItem (i.map f)) := by
  induction i using induct with
  | folder name description items ih =>
    rw [map_folder, sortItem_folder, List.map_map]
    refine .folder ?_ (List.mergeSort_perm _ _).symm
    rw [List.forall₂_map_right_iff, List.forall₂_same]
    exact ih
  | request r => exact .request (related r)

/-- A pass that replaces requests afterwards keeps the folders. -/
theorem Rearranged.alike {i j k : Item} (rearranged : Rearranged R i j) (alike : Alike S j k) :
    Rearranged (Relation.Comp R S) i k := by
  induction i using induct generalizing j k with
  | folder name description items ih =>
    cases rearranged with
    | folder below perm =>
      cases alike with
      | folder replaced =>
        obtain ⟨moved, replaced, perm⟩ := List.perm_comp_forall₂ perm replaced
        refine .folder ?_ perm
        clear * - ih below replaced
        induction below generalizing moved with
        | nil =>
          cases replaced
          exact .nil
        | cons head tail ihTail =>
          cases replaced with
          | cons first rest =>
            rw [List.forall_mem_cons] at ih
            exact .cons (ih.1 head first) (ihTail ih.2 _ rest)
  | request r =>
    cases rearranged with
    | request first =>
      cases alike with
      | request second => exact .request ⟨_, first, second⟩

private theorem Rearranged.imp (le : ∀ r s, R r s → S r s) {i j : Item}
    (rearranged : Rearranged R i j) :
    Rearranged S i j := by
  induction i using induct generalizing j with
  | folder name description items ih =>
    cases rearranged with
    | folder below perm =>
      refine .folder ?_ perm
      clear perm
      induction below with
      | nil => exact .nil
      | cons head tail ihTail =>
        rw [List.forall_mem_cons] at ih
        exact .cons (ih.1 head) (ihTail ih.2)
  | request r =>
    cases rearranged with
    | request related => exact .request (le _ _ related)

end Item

namespace Enhancement

def headerNames (hasBody : Bool) : List String :=
  "Accept" :: ((if hasBody then ["Content-Type"] else []) ++ ["Authorization"])

/-- Headers with names that differ are added independently of each other. -/
theorem foldl_addHeader_eq {news : List Header}
    (distinct : news.Pairwise fun g h => Text.equalIgnoringCase g.key h.key = false)
    (headers : List Header) : news.foldl addHeader headers =
      headers ++ news.filter fun h => !hasHeader headers h.key := by
  induction news generalizing headers with
  | nil => simp
  | cons new news ih =>
    rw [List.pairwise_cons] at distinct
    rw [List.foldl_cons, ih distinct.2, addHeader]
    split
    · rename_i present
      simp [present]
    · rename_i absent
      have same : (news.filter fun h => !hasHeader (headers ++ [new]) h.key) =
          news.filter fun h => !hasHeader headers h.key := by
        refine List.filter_congr fun h member => ?_
        have other : hasHeader [new] h.key = false := by simp [hasHeader, distinct.1 h member]
        rw [hasHeader, List.any_append, ← hasHeader, ← hasHeader, other, Bool.or_false]
      simp [absent, same]

private theorem completeHeaders_headers (r : RequestItem) :
    ∃ added, (completeHeaders r).request.headers = r.request.headers ++ added ∧
      added.map (·.key) = (headerNames r.request.body.isSome).filter fun name =>
        !hasHeader r.request.headers name := by
  have distinct : ∀ hasBody, (defaultHeaders hasBody).Pairwise fun g h =>
      Text.equalIgnoringCase g.key h.key = false := by decide +kernel
  have names : ∀ hasBody, (defaultHeaders hasBody).map (·.key) = headerNames hasBody := by decide
  refine ⟨_, foldl_addHeader_eq (distinct _) _, ?_⟩
  rw [← names, List.filter_map]
  rfl

section Responses

variable (cache : Dto.Cache) (entity path : String)

private theorem addPlanned_appendsNew (responses : List SavedResponse) (plan : Plan) (s : Stream) :
    AppendsNew SavedResponse.name responses
      ((addPlanned cache entity path responses plan).run s).1 := by
  rw [addPlanned]
  split
  · exact .refl _ _
  · rename_i absent
    refine appendsNew_singleton ?_
    simpa [SavedResponse.json] using absent

private theorem foldlM_addPlanned_appendsNew (responses : List SavedResponse) (planned : List Plan)
    (s : Stream) : AppendsNew SavedResponse.name responses
      ((planned.foldlM (addPlanned cache entity path) responses).run s).1 := by
  induction planned generalizing responses s with
  | nil => exact .refl _ _
  | cons plan planned ih =>
    rw [List.foldlM_cons]
    exact (addPlanned_appendsNew cache entity path responses plan s).trans (ih _ _)

private theorem completeResponses_appendsNew (r : RequestItem) (s : Stream) :
    ∃ responses, ((completeResponses cache r).run s).1 = { r with responses := responses } ∧
      AppendsNew SavedResponse.name r.responses responses :=
  ⟨_, rfl, foldlM_addPlanned_appendsNew cache _ _ _ _ s⟩

end Responses

end Enhancement

/-- A request `s` that has what a request `r` has, and headers and responses under new names. -/
structure RequestItem.Extends (r s : RequestItem) : Prop where
  method : s.request.method = r.request.method
  body : s.request.body = r.request.body
  description : s.request.description = r.request.description
  host : s.request.url.host = r.request.url.host
  query : s.request.url.query = r.request.url.query
  entries : s.request.url.pathVariables.map (·.key) = r.request.url.pathVariables.map (·.key)
  headers : ∃ added, s.request.headers = r.request.headers ++ added ∧
    added.map (·.key) = (headerNames r.request.body.isSome).filter fun name =>
      !hasHeader r.request.headers name
  responses : AppendsNew SavedResponse.name r.responses s.responses

theorem extends_of_completed {cache : Dto.Cache} {r s : RequestItem}
    (h : Enhancer.Completed cache (prepare r) s) : r.Extends s := by
  obtain ⟨stream, rfl⟩ := h
  obtain ⟨responses, same, grown⟩ := completeResponses_appendsNew cache (prepare r) stream
  have entries : (prepare r).request.url.pathVariables.map (·.key) =
      r.request.url.pathVariables.map (·.key) := List.map_map
  rw [same]
  exact ⟨rfl, rfl, rfl, rfl, rfl, entries, completeHeaders_headers r, grown⟩

namespace Collection

/-- A collection `d` that has what a collection `c` has in the same folders, and variables with new
keys. -/
structure Extends (c d : Collection) : Prop where
  info : d.info = c.info
  items : ∃ moved, List.Forall₂ (Item.Rearranged RequestItem.Extends) c.items moved ∧
    moved.Perm d.items
  sharedVariables : AppendsNew Variable.key c.sharedVariables d.sharedVariables

private theorem addVariable_info (c : Collection) (key value : String) :
    (c.addVariable key value).info = c.info := by
  rw [addVariable]
  split <;> rfl

private theorem addVariable_appendsNew (c : Collection) (key value : String) :
    AppendsNew Variable.key c.sharedVariables (c.addVariable key value).sharedVariables := by
  rw [addVariable]
  split
  · exact .refl _ _
  · rename_i absent
    refine appendsNew_singleton ?_
    rw [hasVariable_iff] at absent
    simpa [Variable.text] using absent

theorem addVariables_extends (c : Collection) (found : Table String) :
    (c.addVariables found).info = c.info ∧
      AppendsNew Variable.key c.sharedVariables (c.addVariables found).sharedVariables := by
  induction found generalizing c with
  | nil => exact ⟨rfl, .refl _ _⟩
  | cons e found ih =>
    obtain ⟨info, grown⟩ := ih (c.addVariable e.1 e.2)
    exact ⟨info.trans (addVariable_info c _ _), (addVariable_appendsNew c _ _).trans grown⟩

end Collection

namespace Enhancer

/-- The variables that every collection has and those that were met are added as one table. -/
theorem addVariables_addVariables (e : Enhancer) (c : Collection) (found : Table String) :
    (e.addVariables c).addVariables found =
      c.addVariables (("baseUrl", e.baseUrl) :: ("token", defaultToken) ::
        (e.discovered ++ found)) := by
  simp only [Enhancer.addVariables, Collection.addVariables, List.foldl_cons, List.foldl_append]

/-- A run keeps the collection in the same folders and adds to it under new names only. -/
theorem extends_enhance (e : Enhancer) (c : Collection) : c.Extends (e.enhance c).1 := by
  have shared := enhance_eq e c
  rw [addVariables_addVariables] at shared
  have grown := Collection.addVariables_extends c
    (("baseUrl", e.baseUrl) :: ("token", defaultToken) ::
      (e.discovered ++ (e.enhance c).2.discovered))
  constructor
  · rw [shared]
    exact grown.1
  · have sorted := Item.rearranged_sortItem (R := fun r s => s = prepare r) (fun _ => rfl)
      (.folder "" none c.items)
    rw [Item.map_folder, sortItem_folder, ← sortItems_eq] at sorted
    have whole : Item.Rearranged RequestItem.Extends (.folder "" none c.items)
        (.folder "" none (e.enhance c).1.items) := by
      refine (sorted.alike (.folder (alike_enhance e c))).imp ?_
      rintro r t ⟨s, rfl, completed⟩
      exact extends_of_completed completed
    cases whole with
    | folder below perm => exact ⟨_, below, perm⟩
  · rw [shared]
    exact grown.2

end Enhancer
end ApiCollection
