import ApiCollection.Proofs.FinishedCollection

/-!
# Variables of segments

Two parameters in the path of a request become references to different variables, unless one of
them is the bare `id` and the other one has the name that the request suggests for it. In braces,
only a word is taken for the name of a parameter.
-/

namespace ApiCollection

open Enhancement

namespace Enhancement

/-- Whether one of two parameters is the bare `id` and the other one is called as the name of the
request suggests for it. -/
def Clash (name a b : String) : Prop :=
  a = "id" ∧ b = identifierVariable name ∨ b = "id" ∧ a = identifierVariable name

/-- Only the bare `id` gets another name. -/
theorem variableName_eq (parameter name : String) :
    variableName parameter name =
      if parameter = "id" then identifierVariable name else parameter := by
  by_cases h : parameter = "id"
  · subst h
    rfl
  · simp [variableName, h]

private theorem variableName_eq_iff {name a b : String} (distinct : a ≠ b) :
    variableName a name = variableName b name ↔ Clash name a b := by
  rw [variableName_eq, variableName_eq, Clash]
  by_cases ha : a = "id"
  · have hb : b ≠ "id" := fun hb => distinct (ha.trans hb.symm)
    simp [ha, hb, eq_comm]
  · by_cases hb : b = "id"
    · simp [ha, hb]
    · simp [ha, hb, distinct]

/-- A segment that stands for a parameter: its name behind a colon, or in braces. What has two
braces in front is a reference. -/
inductive StandsFor (segment name : String) : Prop where
  | colon (text : segment.toList = ':' :: name.toList)
  | braces (text : segment.toList = '\x7b' :: (name.toList ++ ['\x7d']))
      (single : '\x7b' ∉ name.toList)

/-- Whether the name of a parameter is read from its segment: behind a colon it always is, in braces
only if it is a word. -/
def Legible (segment name : String) : Prop :=
  segment.toList.head? = some ':' ∨
    name.toList ≠ [] ∧ ∀ c ∈ name.toList, Text.isWordChar c = true

namespace StandsFor

variable {segment name : String}

theorem segmentParameter?_eq (h : StandsFor segment name) (legible : Legible segment name) :
    segmentParameter? segment = some name := by
  rcases h with text | ⟨text, single⟩
  · rw [segmentParameter?_colon text, String.ofList_toList]
  · rcases legible with colon | ⟨nonempty, word⟩
    · rw [text] at colon
      cases colon
    · rw [segmentParameter?_braced nonempty word text, String.ofList_toList]

private theorem segmentParameter?_eq_none (h : StandsFor segment name)
    (illegible : ¬Legible segment name) :
    segmentParameter? segment = none := by
  rcases h with text | ⟨text, single⟩
  · apply absurd _ illegible
    left
    rw [text]
    rfl
  · rw [segmentParameter?, text]
    cases read : Text.word? (name.toList ++ ['\x7d']) with
    | none => simp [read]
    | some found =>
      obtain ⟨word, rest⟩ := found
      obtain ⟨split, letters, nonempty⟩ := Text.run?_eq_some read
      -- A word up to the last brace would be the whole name.
      have other : rest ≠ ['\x7d'] := by
        rintro rfl
        rw [List.append_left_inj] at split
        rw [List.all_eq_true] at letters
        exact illegible (.inr ⟨split ▸ nonempty, split ▸ letters⟩)
      simp [read, other]

private theorem ne_reference (h : StandsFor segment name) (v : String) : segment ≠ reference v := by
  intro same
  have text : segment.toList = '\x7b' :: '\x7b' :: (v.toList ++ ['\x7d', '\x7d']) := by
    simp [same, reference]
  rcases h with colon | ⟨braces, single⟩
  · rw [colon] at text
    cases text
  · rw [braces, List.cons.injEq] at text
    cases name' : name.toList with
    | nil => simp [name'] at text
    | cons c cs =>
      rw [name', List.cons_append, List.cons.injEq] at text
      apply single
      rw [name', text.2.1]
      exact List.mem_cons_self

end StandsFor

/-- Whether two segments of a path are references to different variables, both with keys that are
known. -/
def ReferApart (keys path : List String) (i j : ℕ) : Prop :=
  ∃ v ∈ keys, ∃ w ∈ keys, v ≠ w ∧ path[i]? = some (reference v) ∧ path[j]? = some (reference w)

private theorem refers_of_standsFor {name segment a v : String} (stands : StandsFor segment a) :
    referSegment name segment = reference v ↔ Legible segment a ∧ v = variableName a name := by
  by_cases legible : Legible segment a
  · rw [referSegment, segmentVariable?, stands.segmentParameter?_eq legible]
    simp only [Option.map_some, Option.getD_some, legible, true_and]
    exact ⟨fun same => (reference_injective same).symm, fun same => same ▸ rfl⟩
  · rw [referSegment_of_none name (stands.segmentParameter?_eq_none legible)]
    simp [legible, stands.ne_reference v]

/-- Behind one run, the segments of two different parameters refer to different variables exactly
if both names are legible and do not clash. -/
theorem referApart_iff_of_known {keys path : List String} {name x y a b : String} {i j : ℕ}
    (known : path.filterMap (segmentVariable? name) ⊆ keys) (hi : path[i]? = some x)
    (hj : path[j]? = some y) (first : StandsFor x a) (second : StandsFor y b) (distinct : a ≠ b) :
    ReferApart keys (path.map (referSegment name)) i j ↔
      Legible x a ∧ Legible y b ∧ ¬Clash name a b := by
  have mem_keys {z c : String} {k : ℕ} (hk : path[k]? = some z) (stands : StandsFor z c)
      (legible : Legible z c) : variableName c name ∈ keys := by
    apply known
    refine List.mem_filterMap.2 ⟨z, List.mem_of_getElem? hk, ?_⟩
    rw [segmentVariable?, stands.segmentParameter?_eq legible, Option.map_some]
  simp only [ReferApart, List.getElem?_map, hi, hj, Option.map_some, Option.some.injEq,
    refers_of_standsFor first, refers_of_standsFor second, ← variableName_eq_iff distinct]
  constructor
  · rintro ⟨v, -, w, -, apart, ⟨legible, rfl⟩, ⟨legible', rfl⟩⟩
    exact ⟨legible, legible', apart⟩
  · rintro ⟨legible, legible', apart⟩
    exact ⟨_, mem_keys hi first legible, _, mem_keys hj second legible', apart, ⟨legible, rfl⟩,
      legible', rfl⟩

end Enhancement

namespace Enhancer

theorem requests_referVariables (e : Enhancer) (c : Collection) :
    (e.referVariables c).1.requests = c.requests.map referRequest := by
  rw [referVariables, Collection.mapRequests_eq, Collection.requests, Collection.addVariables_items]
  exact Collection.requests_map referRequest c.items

private theorem referenced_subset (e : Enhancer) (c : Collection) :
    c.referenced ⊆ (e.referVariables c).1.sharedVariables.map (·.key) := by
  intro v hv
  rw [Collection.mem_keys_iff, referVariables, Collection.hasVariable_addVariables]
  right
  exact has_discover.2 (.inr hv)

/-- Two segments of a request that stand for different parameters are rewritten to references to
different variables of the collection exactly if both names are legible and neither is the bare
`id` with the other one suggested for it. -/
theorem referApart_iff (e : Enhancer) (c : Collection) :
    List.Forall₂ (fun r s => ∀ (i j : ℕ) (x y a b : String),
        r.request.url.path[i]? = some x → r.request.url.path[j]? = some y →
        StandsFor x a → StandsFor y b → a ≠ b →
          (ReferApart ((e.referVariables c).1.sharedVariables.map (·.key)) s.request.url.path i j ↔
            Legible x a ∧ Legible y b ∧ ¬Clash r.name a b))
      c.requests (e.referVariables c).1.requests := by
  rw [requests_referVariables, List.forall₂_map_right_iff, List.forall₂_same]
  intro r hr i j x y a b hi hj first second distinct
  refine referApart_iff_of_known ?_ hi hj first second distinct
  intro v hv
  apply referenced_subset e c
  refine List.mem_flatMap.2 ⟨r, hr, ?_⟩
  rw [requestVariables, urlVariables]
  exact List.mem_append_left _ hv

def userOrder (path : List String) : Collection :=
  { Collection.named "Demo" with
    items := [.request {
      name := "Get User Order"
      request := {
        method := "GET", url := { host := ["\x7b\x7bbaseUrl\x7d\x7d"], path := path } } }] }

theorem referApart_userOrder :
    let c := userOrder ["users", ":userId", "orders", "\x7borderId\x7d"]
    let e : Enhancer := { stream := .ofSeed 42 }
    StandsFor ":userId" "userId" ∧ StandsFor "\x7borderId\x7d" "orderId" ∧
      ∃ s, (e.referVariables c).1.requests = [s] ∧
        ReferApart ((e.referVariables c).1.sharedVariables.map (·.key)) s.request.url.path 1 3 := by
  intro c e
  have user : StandsFor ":userId" "userId" := .colon (by decide)
  have order : StandsFor "\x7borderId\x7d" "orderId" := .braces (by decide) (by decide)
  have apart := referApart_iff e c
  rw [requests_referVariables] at apart ⊢
  refine ⟨user, order, _, rfl, ?_⟩
  refine ((List.forall₂_cons.1 apart).1 1 3 _ _ _ _ rfl rfl user order (by decide)).2 ⟨?_, ?_, ?_⟩
  · exact .inl rfl
  · exact .inr ⟨by decide, List.all_eq_true.1 (by decide)⟩
  · simp [Clash]

/-- The identifiers of a user and of an order are one variable, as the request speaks of a user. -/
theorem exists_not_referApart :
    ¬∀ (e : Enhancer) (c : Collection),
      List.Forall₂ (fun r s => ∀ (i j : ℕ) (x y a b : String),
          r.request.url.path[i]? = some x → r.request.url.path[j]? = some y →
          StandsFor x a → StandsFor y b → Legible x a → Legible y b → a ≠ b →
            ReferApart ((e.referVariables c).1.sharedVariables.map (·.key)) s.request.url.path i j)
        c.requests (e.referVariables c).1.requests := by
  intro all
  have claimed := all { stream := .ofSeed 42 } (userOrder ["users", ":userId", "orders", ":id"])
  rw [requests_referVariables] at claimed
  obtain ⟨v, -, w, -, apart, first, second⟩ := (List.forall₂_cons.1 claimed).1 1 3 ":userId" ":id"
    "userId" "id" rfl rfl (.colon (by decide)) (.colon (by decide)) (.inl rfl) (.inl rfl)
    (by decide)
  have same : referSegment "Get User Order" ":userId" = referSegment "Get User Order" ":id" := by
    decide +kernel
  apply apart
  apply reference_injective
  calc
    reference v = referSegment "Get User Order" ":userId" := (Option.some.inj first).symm
    _ = referSegment "Get User Order" ":id" := same
    _ = reference w := Option.some.inj second

end Enhancer
end ApiCollection
