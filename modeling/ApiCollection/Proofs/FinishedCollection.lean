import ApiCollection.Project.Run
import ApiCollection.Proofs.Blanks
import ApiCollection.Proofs.ConvertedApi
import ApiCollection.Proofs.EnhancementFrame

/-!
# Finished collections

Every variable that rewriting puts into an address is a variable of the finished collection, and
every key stands for one variable. The address of the server is the one that was asked for, else
the one of the document.
-/

namespace ApiCollection

open Enhancement Conversion

namespace Enhancement

/-- A parameter of an address: a segment with a colon in front, or a word in single braces. -/
def IsParameter (segment : String) : Prop :=
  (∃ name, segment.toList = ':' :: name) ∨
    ∃ word, word ≠ [] ∧ (∀ c ∈ word, Text.isWordChar c = true) ∧
      segment.toList = '\x7b' :: (word ++ ['\x7d'])

theorem segmentParameter?_colon {segment : String} {name : List Char}
    (h : segment.toList = ':' :: name) : segmentParameter? segment = some (String.ofList name) := by
  rw [segmentParameter?, h]
  rfl

theorem segmentParameter?_braced {segment : String} {word : List Char} (nonempty : word ≠ [])
    (all : ∀ c ∈ word, Text.isWordChar c = true)
    (h : segment.toList = '\x7b' :: (word ++ ['\x7d'])) :
    segmentParameter? segment = some (String.ofList word) := by
  have stop : (['\x7d'] : List Char).head?.any Text.isWordChar = false := by decide
  have letters : Text.word? (word ++ ['\x7d']) = some (word, ['\x7d']) :=
    Text.run?_append (List.all_eq_true.2 all) nonempty stop
  rw [segmentParameter?, h]
  simp [letters]

private theorem not_isParameter {segment : String} (h : segmentParameter? segment = none) :
    ¬IsParameter segment := by
  rintro (⟨name, text⟩ | ⟨word, nonempty, all, text⟩)
  · rw [segmentParameter?_colon text] at h
    cases h
  · rw [segmentParameter?_braced nonempty all text] at h
    cases h

end Enhancement

/-- What was written for a text: the text itself, or a reference to a variable of some keys. -/
def Written (keys : List String) (old new : String) : Prop :=
  new = old ∨ ∃ v ∈ keys, new = reference v

/-- A request `s` whose address is that of a request `r` with references to some keys. -/
structure Refers (keys : List String) (r s : RequestItem) : Prop where
  path : List.Forall₂ (Written keys) r.request.url.path s.request.url.path
  entries : List.Forall₂ (fun old new => new.key = old.key ∧ ∃ v ∈ keys, new.value = reference v)
    r.request.url.pathVariables s.request.url.pathVariables

theorem url_of_completed {cache : Dto.Cache} {r s : RequestItem}
    (h : Enhancer.Completed cache (prepare r) s) :
    s.request.url = referUrl r.name r.request.url := by
  obtain ⟨stream, rfl⟩ := h
  rfl

private theorem refers_of_completed {cache : Dto.Cache} {keys : List String} {r s : RequestItem}
    (h : Enhancer.Completed cache (prepare r) s) (known : requestVariables r ⊆ keys) :
    Refers keys r s := by
  rw [requestVariables, urlVariables, List.append_subset] at known
  obtain ⟨segments, entries⟩ := known
  constructor
  · rw [url_of_completed h, referUrl, Url.rebuild, List.forall₂_map_right_iff, List.forall₂_same]
    intro segment member
    cases found : segmentVariable? r.name segment with
    | none =>
      left
      rw [referSegment, found]
      rfl
    | some v =>
      right
      refine ⟨v, segments (List.mem_filterMap.2 ⟨segment, member, found⟩), ?_⟩
      rw [referSegment, found]
      rfl
  · rw [url_of_completed h, referUrl, Url.rebuild, List.forall₂_map_right_iff, List.forall₂_same]
    intro v member
    exact ⟨rfl, _, entries (List.mem_map_of_mem member), rfl⟩

namespace Enhancer

variable (e : Enhancer) (c : Collection)

/-- The requests behind a run are what it makes of each request, up to their order. -/
theorem requests_enhance_perm : ∃ moved,
    List.Forall₂ (fun r s => Completed e.cache (prepare r) s) c.requests moved ∧
      moved.Perm (e.enhance c).1.requests := by
  obtain ⟨moved, completed, perm⟩ :=
    List.perm_comp_forall₂ (requestsOf_arranged_perm c.items).symm (requests_enhance e c)
  rw [List.forall₂_map_left_iff] at completed
  exact ⟨moved, completed, perm⟩

theorem hasVariable_of_mem_referenced {v : String} (h : v ∈ c.referenced) :
    (e.enhance c).1.hasVariable v = true := by
  refine hasVariable_enhance e c (.inr (.inr ?_))
  rw [enhance_discovered, has_discover]
  exact .inr h

end Enhancer

namespace Collection

theorem mem_keys_iff {c : Collection} {key : String} :
    key ∈ c.sharedVariables.map (·.key) ↔ c.hasVariable key = true := by
  rw [hasVariable_iff, List.mem_map]

private theorem setBaseUrl_items (c : Collection) (url : String) :
    (c.setBaseUrl url).items = c.items := by
  rw [setBaseUrl, setVariable]
  split
  · rfl
  · exact addVariable_items c _ _

/-- Setting the address replaces the one of the document. -/
theorem setBaseUrl_sharedVariables {c : Collection} {address : Option String}
    (h : c.sharedVariables = address.toList.map (.text baseUrlKey)) (url : String) :
    (c.setBaseUrl url).sharedVariables = [.text baseUrlKey url] := by
  cases address with
  | none =>
    have absent : ¬c.hasVariable baseUrlKey = true := by simp [hasVariable_iff, h]
    rw [setBaseUrl, setVariable, if_neg absent, addVariable, if_neg absent, h]
    rfl
  | some old =>
    have present : c.hasVariable baseUrlKey = true := by
      simp [hasVariable_iff, h, Variable.text]
    rw [setBaseUrl, setVariable, if_pos present, h]
    simp [setFirst, Variable.text]

end Collection

namespace Enhancer

/-- The address is kept when there is one, else the enhancer adds its own. -/
theorem mem_sharedVariables_enhance (e : Enhancer) {c : Collection} {address : Option String}
    (h : c.sharedVariables = address.toList.map (.text baseUrlKey)) :
    Variable.text baseUrlKey (address.getD e.baseUrl) ∈ (e.enhance c).1.sharedVariables := by
  cases address with
  | some url =>
    refine (extends_enhance e c).sharedVariables.subset ?_
    rw [h]
    exact List.mem_cons_self
  | none =>
    have absent : ¬c.hasVariable "baseUrl" = true := by simp [Collection.hasVariable_iff, h]
    have first : (c.addVariable "baseUrl" e.baseUrl).sharedVariables =
        [.text baseUrlKey e.baseUrl] := by
      rw [Collection.addVariable, if_neg absent, h]
      rfl
    have grown := Collection.addVariables_extends (c.addVariable "baseUrl" e.baseUrl)
      (("token", defaultToken) :: (e.discovered ++ (e.enhance c).2.discovered))
    rw [enhance_eq, addVariables_addVariables]
    refine grown.2.subset ?_
    rw [first]
    exact List.mem_cons_self

end Enhancer

private theorem convert_sharedVariables {document : Json} {options : Options} {c : Collection}
    (h : convert document options = .ok c) :
    c.sharedVariables = (baseAddress? document).toList.map (.text baseUrlKey) := by
  unfold convert at h
  split at h
  · cases h
  · extract_lets grouped empty info collection at h
    split at h
    · cases h
    · obtain rfl := Except.ok.inj h
      rfl

namespace Settings

/-- A collection `c` that is made of a converted one: its variables have distinct keys, all that
its addresses were made to refer to are among them, and no parameter is left in an address. -/
structure Finished (s : Settings) (document : Json) (converted c : Collection) : Prop where
  distinct : (c.sharedVariables.map (·.key)).Nodup
  token : "token" ∈ c.sharedVariables.map (·.key)
  baseUrl : ∃ v ∈ c.sharedVariables, v.key = "baseUrl" ∧
    v.value = (s.baseUrl.or (baseAddress? document)).getD defaultBaseUrl
  requests : ∃ moved,
    List.Forall₂ (Refers (c.sharedVariables.map (·.key))) converted.requests moved ∧
      moved.Perm c.requests
  path : ∀ r ∈ c.requests, ∀ segment ∈ r.request.url.path, ¬IsParameter segment
  raw : ∀ r ∈ c.requests, r.request.url.raw = r.request.url.assemble

section Steps

variable (s : Settings) {document : Json} {converted : Collection}

def based (s : Settings) (converted : Collection) : Collection :=
  s.baseUrl.elim converted converted.setBaseUrl

private theorem based_requests (converted : Collection) :
    (s.based converted).requests = converted.requests := by
  rw [based]
  cases s.baseUrl with
  | none => rfl
  | some url => exact congrArg Item.requestsOf (converted.setBaseUrl_items url)

private theorem based_sharedVariables (h : convert document {} = .ok converted) :
    (s.based converted).sharedVariables =
      (s.baseUrl.or (baseAddress? document)).toList.map (.text baseUrlKey) := by
  rw [based]
  cases s.baseUrl with
  | none => exact convert_sharedVariables h
  | some url => exact Collection.setBaseUrl_sharedVariables (convert_sharedVariables h) url

end Steps

/-- When a document is converted, then a finished collection is made of it, whatever address is
set. -/
theorem collection_finished (s : Settings) (document : Json) (cache : Dto.Cache)
    {converted : Collection} (h : convert document {} = .ok converted) :
    ∃ c, s.collection document cache = .ok c ∧ s.Finished document converted c := by
  let e : Enhancer := {
    cache := cache, stream := Random.Stream.ofSeed s.seed
    baseUrl := s.baseUrl.getD defaultBaseUrl }
  have made : s.collection document cache = .ok (e.enhance (s.based converted)).1 := by
    rw [collection, h]
    rfl
  have based := s.based_sharedVariables h
  obtain ⟨onward, backward⟩ := Enhancer.became_enhance e (s.based converted)
  refine ⟨_, made, ?_, ?_, ?_, ?_, ?_, ?_⟩
  · refine (Enhancer.extends_enhance e (s.based converted)).sharedVariables.nodup ?_
    rw [based]
    cases s.baseUrl.or (baseAddress? document) <;> simp
  · exact Collection.mem_keys_iff.2 (Enhancer.hasVariable_enhance _ _ (.inr (.inl rfl)))
  · refine ⟨_, Enhancer.mem_sharedVariables_enhance e based, rfl, ?_⟩
    simp only [Variable.text, e]
    cases s.baseUrl <;> rfl
  · obtain ⟨moved, completed, perm⟩ := Enhancer.requests_enhance_perm e (s.based converted)
    rw [based_requests] at completed
    have members := (List.forall₂_and_left _ moved).2
      ⟨fun r (hr : r ∈ converted.requests) => hr, completed⟩
    refine ⟨moved, members.imp ?_, perm⟩
    rintro r t ⟨hr, done⟩
    refine refers_of_completed done ?_
    intro v hv
    refine Collection.mem_keys_iff.2 (Enhancer.hasVariable_of_mem_referenced _ _ ?_)
    rw [← based_requests s] at hr
    exact List.mem_flatMap.2 ⟨r, hr, hv⟩
  · intro r hr segment member
    obtain ⟨old, -, became⟩ := backward r hr
    exact not_isParameter (became.path segment member)
  · intro r hr
    obtain ⟨old, -, became⟩ := backward r hr
    exact became.raw

/-- A document with a parameter that has the name of a default variable. -/
def sessionDocument : Json :=
  .object [("paths", .object [("/sessions/{token}", .object [("get", .object [])])])]

theorem collection_finished_session :
    let s : Settings := { source := .path ".", baseUrl := some "http://localhost:9090" }
    ∃ converted, convert sessionDocument {} = .ok converted ∧
      ∃ c, s.collection sessionDocument {} = .ok c ∧ s.Finished sessionDocument converted c := by
  intro s
  have operation : operations sessionDocument ≠ [] := by decide
  have found : sessionDocument.get? "paths" =
      some (.object [("/sessions/\x7btoken\x7d", .object [("get", .object [])])]) := rfl
  obtain ⟨converted, h, -⟩ := convert_requests {} found operation
  exact ⟨converted, h, collection_finished s sessionDocument {} h⟩

end Settings
end ApiCollection
