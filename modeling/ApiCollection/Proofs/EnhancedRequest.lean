import ApiCollection.Enhancement.Basic
import Mathlib.Data.List.Basic

/-!
# What enhancement makes of a request

Headers, references and example responses are complete behind one run. A second run can only give
the request a new name, and its entries the variables that the new name suggests.
-/

namespace ApiCollection.Enhancement

open ApiCollection.Random

private theorem equalIgnoringCase_refl (s : String) : Text.equalIgnoringCase s s = true :=
  beq_self_eq_true _

private theorem hasHeader_addHeader {headers : List Header} {key : String} (new : Header)
    (h : hasHeader headers key = true) : hasHeader (addHeader headers new) key = true := by
  rw [addHeader]
  split
  · exact h
  · rw [hasHeader, List.any_append, Bool.or_eq_true]
    exact .inl h

private theorem hasHeader_addHeader_self (headers : List Header) (new : Header) :
    hasHeader (addHeader headers new) new.key = true := by
  rw [addHeader]
  split
  · assumption
  · rw [hasHeader, List.any_append, Bool.or_eq_true]
    right
    simp [equalIgnoringCase_refl]

private theorem hasHeader_foldl {headers : List Header} {key : String} (news : List Header)
    (h : hasHeader headers key = true) : hasHeader (news.foldl addHeader headers) key = true := by
  induction news generalizing headers with
  | nil => exact h
  | cons new news ih => exact ih (hasHeader_addHeader new h)

private theorem hasHeader_foldl_of_mem {new : Header} (headers : List Header) {news : List Header}
    (member : new ∈ news) : hasHeader (news.foldl addHeader headers) new.key = true := by
  induction news generalizing headers with
  | nil => cases member
  | cons first news ih =>
    cases member with
    | head => exact hasHeader_foldl news (hasHeader_addHeader_self headers _)
    | tail _ member => exact ih _ member

private theorem foldl_addHeader_of_has {headers news : List Header}
    (has : ∀ new ∈ news, hasHeader headers new.key = true) :
    news.foldl addHeader headers = headers := by
  induction news with
  | nil => rfl
  | cons new news ih =>
    rw [List.forall_mem_cons] at has
    rw [List.foldl_cons, addHeader, if_pos has.1, ih has.2]

private theorem completeHeaders_of_has {r : RequestItem}
    (has : ∀ h ∈ defaultHeaders r.request.body.isSome, hasHeader r.request.headers h.key = true) :
    completeHeaders r = r := by
  rw [completeHeaders, foldl_addHeader_of_has has]

theorem reference_injective {k l : String} (h : reference k = reference l) : k = l := by
  rw [reference, reference, String.append_left_inj, String.append_right_inj] at h
  exact h

/-- A reference is no parameter, whatever its variable. -/
theorem segmentParameter?_reference (key : String) : segmentParameter? (reference key) = none := by
  have text : (reference key).toList = '\x7b' :: '\x7b' :: (key.toList ++ ['\x7d', '\x7d']) := by
    simp [reference]
  have noWord : Text.word? ('\x7b' :: (key.toList ++ ['\x7d', '\x7d'])) = none := by
    have brace : Text.isWordChar '\x7b' = false := by decide
    simp [Text.word?, Text.run?, brace]
  rw [segmentParameter?, text]
  simp [noWord]

theorem referSegment_of_none {segment : String} (name : String)
    (h : segmentParameter? segment = none) : referSegment name segment = segment := by
  rw [referSegment, segmentVariable?, h]
  rfl

private theorem segmentParameter?_referSegment (name segment : String) :
    segmentParameter? (referSegment name segment) = none := by
  cases h : segmentParameter? segment with
  | none => rw [referSegment_of_none name h, h]
  | some parameter =>
    rw [referSegment, segmentVariable?, h]
    exact segmentParameter?_reference _

def HasPlanned (r : RequestItem) : Prop :=
  ∀ plan ∈ plans r.request.method (isParameterized r.request.url.pathText),
    ∃ response ∈ r.responses, response.name = plan.name

section Responses

variable (cache : Dto.Cache) (entity path : String)

private theorem addPlanned_run (responses : List SavedResponse) (plan : Plan) (s : Stream) :
    responses ⊆ ((addPlanned cache entity path responses plan).run s).1 ∧
      ∃ response ∈ ((addPlanned cache entity path responses plan).run s).1,
        response.name = plan.name := by
  rw [addPlanned]
  split
  · rename_i present
    obtain ⟨response, member, same⟩ := List.any_eq_true.1 present
    exact ⟨List.Subset.refl _, response, member, beq_iff_eq.1 same⟩
  · exact ⟨List.subset_append_left _ _, _, List.mem_append_right _ List.mem_cons_self, rfl⟩

private theorem foldlM_addPlanned_run (responses : List SavedResponse) (planned : List Plan)
    (s : Stream) :
    responses ⊆ ((planned.foldlM (addPlanned cache entity path) responses).run s).1 ∧
      ∀ plan ∈ planned,
        ∃ response ∈ ((planned.foldlM (addPlanned cache entity path) responses).run s).1,
          response.name = plan.name := by
  induction planned generalizing responses s with
  | nil => exact ⟨List.Subset.refl _, fun plan member => absurd member List.not_mem_nil⟩
  | cons plan planned ih =>
    obtain ⟨kept, response, member, same⟩ := addPlanned_run cache entity path responses plan s
    obtain ⟨keptLater, later⟩ := ih ((addPlanned cache entity path responses plan).run s).1
      ((addPlanned cache entity path responses plan).run s).2
    rw [List.foldlM_cons, List.forall_mem_cons]
    exact ⟨List.Subset.trans kept keptLater, ⟨response, keptLater member, same⟩, later⟩

private theorem foldlM_addPlanned_of_present {responses : List SavedResponse} {planned : List Plan}
    (present : ∀ plan ∈ planned, ∃ response ∈ responses, response.name = plan.name) :
    planned.foldlM (addPlanned cache entity path) responses = pure responses := by
  induction planned with
  | nil => rfl
  | cons plan planned ih =>
    rw [List.forall_mem_cons] at present
    obtain ⟨⟨response, member, same⟩, rest⟩ := present
    have named : (responses.any fun r => r.name == plan.name) = true :=
      List.any_eq_true.2 ⟨response, member, beq_iff_eq.2 same⟩
    rw [List.foldlM_cons, addPlanned, if_pos named]
    exact ih rest

end Responses

/-- Completing the responses changes nothing else, and leaves no suggestion open. -/
theorem completeResponses_run (cache : Dto.Cache) (r : RequestItem) (s : Stream) :
    ∃ responses, ((completeResponses cache r).run s).1 = { r with responses := responses } ∧
      HasPlanned { r with responses := responses } :=
  ⟨_, rfl, (foldlM_addPlanned_run cache _ _ r.responses _ s).2⟩

theorem completeResponses_of_hasPlanned (cache : Dto.Cache) {r : RequestItem}
    (h : HasPlanned r) : completeResponses cache r = pure r := by
  rw [completeResponses, foldlM_addPlanned_of_present cache _ _ h]
  rfl

/-- What a run makes of a request before it orders the tree and completes the responses. -/
def prepare (r : RequestItem) : RequestItem :=
  let r := referRequest (completeHeaders r)
  { r with name := displayName r.name r.request.method }

/-- The name of a request is settled when its display name is a display name, and suggests the same
variables for the entries of the address. -/
def NameSettles (r : RequestItem) : Prop :=
  let name := displayName r.name r.request.method
  displayName name r.request.method = name ∧
    ∀ v ∈ r.request.url.pathVariables, variableName v.key name = variableName v.key r.name

/-- What a request `s` behind a run has to do with the request `r` that it was. -/
structure Became (r s : RequestItem) : Prop where
  name : s.name = displayName r.name r.request.method
  method : s.request.method = r.request.method
  entries : s.request.url.pathVariables = r.request.url.pathVariables.map fun v =>
    { v with value := reference (entryVariable r.name v) }
  headers : ∀ h ∈ defaultHeaders s.request.body.isSome, hasHeader s.request.headers h.key = true
  path : ∀ segment ∈ s.request.url.path, segmentParameter? segment = none
  raw : s.request.url.raw = s.request.url.assemble
  planned : HasPlanned s

theorem became_completeResponses (cache : Dto.Cache) (r : RequestItem) (stream : Stream) :
    Became r ((completeResponses cache (prepare r)).run stream).1 := by
  obtain ⟨responses, same, planned⟩ := completeResponses_run cache (prepare r) stream
  rw [same]
  refine ⟨rfl, rfl, rfl, ?_, ?_, rfl, planned⟩
  · intro h member
    exact hasHeader_foldl_of_mem r.request.headers member
  · intro segment member
    obtain ⟨old, -, rfl⟩ := List.mem_map.1 member
    exact segmentParameter?_referSegment _ _

section Second

variable {r s : RequestItem}

/-- A second run can change the name and the values of the entries. -/
theorem Became.prepare_eq (h : Became r s) :
    prepare s = { s with
      name := displayName s.name s.request.method
      request := { s.request with url := { s.request.url with
        pathVariables := s.request.url.pathVariables.map fun v =>
          { v with value := reference (entryVariable s.name v) } } } } := by
  have segments : s.request.url.path.map (referSegment s.name) = s.request.url.path := by
    conv_rhs => rw [← List.map_id' s.request.url.path]
    exact List.map_inj_left.2 fun segment member => referSegment_of_none s.name (h.path _ member)
  rw [prepare, completeHeaders_of_has h.headers, referRequest, referUrl, segments, Url.rebuild]
  have raw : s.request.url.raw = Url.assemble { s.request.url with
      pathVariables := s.request.url.pathVariables.map fun v =>
        { v with value := reference (entryVariable s.name v) } } := h.raw
  dsimp only
  rw [← raw]

theorem Became.prepare_eq_self_iff (h : Became r s) : prepare s = s ↔ NameSettles r := by
  have entries : (s.request.url.pathVariables.map fun v =>
      { v with value := reference (entryVariable s.name v) }) = s.request.url.pathVariables ↔
      ∀ v ∈ r.request.url.pathVariables, variableName v.key s.name = variableName v.key r.name := by
    rw [h.entries, List.map_map, List.map_inj_left]
    refine forall₂_congr fun v _ => ?_
    simp only [Function.comp_apply, Variable.mk.injEq, and_true, true_and]
    exact ⟨reference_injective, fun same => congrArg reference same⟩
  rw [h.prepare_eq, NameSettles]
  dsimp only
  rw [← h.name, ← h.method, ← entries]
  constructor
  · intro same
    have names := congrArg RequestItem.name same
    have urls := congrArg (fun r => r.request.url.pathVariables) same
    exact ⟨names, urls⟩
  · rintro ⟨names, urls⟩
    rw [names, urls]

theorem Became.hasPlanned_prepare (h : Became r s) : HasPlanned (prepare s) := by
  rw [h.prepare_eq]
  exact h.planned

/-- The entries refer to variables of the request that was, when its name is settled. -/
theorem Became.requestVariables_subset (h : Became r s) (settled : NameSettles r) :
    requestVariables s ⊆ requestVariables r := by
  have noSegment : s.request.url.path.filterMap (segmentVariable? s.name) = [] := by
    rw [List.filterMap_eq_nil_iff]
    intro segment member
    rw [segmentVariable?, h.path segment member]
    rfl
  rw [requestVariables, urlVariables, noSegment, List.nil_append, h.entries, h.name]
  intro key member
  simp only [List.map_map, List.mem_map, Function.comp_apply] at member
  obtain ⟨v, hv, rfl⟩ := member
  refine List.mem_append_right _ (List.mem_map.2 ⟨v, hv, ?_⟩)
  exact (settled.2 v hv).symm

end Second

end ApiCollection.Enhancement
