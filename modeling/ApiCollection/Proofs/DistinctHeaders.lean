import ApiCollection.Proofs.CollectionRoundTrip
import ApiCollection.Proofs.FinishedCollection

/-!
# Distinct headers

A finished request has the headers that its operation declares, the type of its body and the default
headers; the requests of its examples have the authorisation besides. Default headers are only added
when they are missing. The type of the body and the authorisation of an example are not looked for,
so they repeat a header that is declared under the same name.
-/

namespace ApiCollection

open Enhancement ApiCollection.Random

/-- The names of headers in small letters. -/
def foldedKeys (headers : List Header) : List String :=
  headers.map fun h => Text.asciiLowercase h.key

/-- No two headers have the same name, without regard to case. -/
def DistinctHeaders (headers : List Header) : Prop := (foldedKeys headers).Nodup

theorem distinctHeaders_concat (headers : List Header) (h : Header) :
    DistinctHeaders (headers ++ [h]) ↔
      DistinctHeaders headers ∧ Text.asciiLowercase h.key ∉ foldedKeys headers := by
  rw [DistinctHeaders, foldedKeys, List.map_append, List.map_singleton, ← List.concat_eq_append,
    List.nodup_concat, and_comm]
  rfl

namespace Enhancement

private theorem hasHeader_iff (headers : List Header) (key : String) :
    hasHeader headers key = true ↔ Text.asciiLowercase key ∈ foldedKeys headers := by
  simp [hasHeader, foldedKeys, Text.equalIgnoringCase]

/-- A header is only added under a new name. -/
theorem distinctHeaders_addHeader (headers : List Header) (h : Header) :
    DistinctHeaders (addHeader headers h) ↔ DistinctHeaders headers := by
  rw [addHeader]
  split
  · rfl
  · rename_i absent
    rw [hasHeader_iff] at absent
    rw [distinctHeaders_concat, and_iff_left absent]

private theorem distinctHeaders_foldl_addHeader (news headers : List Header) :
    DistinctHeaders (news.foldl addHeader headers) ↔ DistinctHeaders headers := by
  induction news generalizing headers with
  | nil => rfl
  | cons h news ih => rw [List.foldl_cons, ih, distinctHeaders_addHeader]

private theorem distinctHeaders_completeHeaders (r : RequestItem) :
    DistinctHeaders (completeHeaders r).request.headers ↔ DistinctHeaders r.request.headers :=
  distinctHeaders_foldl_addHeader _ _

end Enhancement

/-- The requests that the examples of a request answer. -/
def RequestItem.originals (r : RequestItem) : List Request := r.responses.filterMap (·.request)

namespace Enhancement

variable (cache : Dto.Cache) (entity path : String)

private theorem originals_addPlanned (responses : List SavedResponse) (plan : Plan) (s : Stream) :
    ((addPlanned cache entity path responses plan).run s).1.filterMap (·.request) =
      responses.filterMap (·.request) := by
  rw [addPlanned]
  split
  · rfl
  · exact (List.filterMap_append ..).trans (List.append_nil _)

private theorem originals_foldlM_addPlanned (responses : List SavedResponse) (planned : List Plan)
    (s : Stream) : ((planned.foldlM (addPlanned cache entity path) responses).run s).1.filterMap
      (·.request) = responses.filterMap (·.request) := by
  induction planned generalizing responses s with
  | nil => rfl
  | cons plan planned ih =>
    rw [List.foldlM_cons]
    exact (ih _ _).trans (originals_addPlanned cache entity path responses plan s)

end Enhancement

section Completed

variable {cache : Dto.Cache} {r s : RequestItem} (h : Enhancer.Completed cache (prepare r) s)

include h

theorem distinctHeaders_of_completed :
    DistinctHeaders s.request.headers ↔ DistinctHeaders r.request.headers := by
  obtain ⟨stream, rfl⟩ := h
  exact distinctHeaders_completeHeaders r

/-- Examples that are added answer no request. -/
theorem originals_of_completed : s.originals = r.originals := by
  obtain ⟨stream, rfl⟩ := h
  exact originals_foldlM_addPlanned ..

end Completed

namespace Conversion

variable (document : Json) (options : Options) (o : Operation)

/-- The names of the header parameters of an operation and its path together. -/
def declaredHeaders : List String :=
  (located "header" (mergeParameters document o.shared (o.content.get? "parameters"))).map Prod.fst

/-- Whether a header of a name in small letters is declared in any case. -/
def DeclaresHeader (name : String) : Prop :=
  name ∈ (declaredHeaders document o).map Text.asciiLowercase

/-- An operation whose body is sent and that declares the header for its type. -/
def RepeatsType : Prop :=
  (requestItem document options o).request.body.isSome = true ∧
    DeclaresHeader document o "content-type"

/-- An operation whose examples show that they are authorised and that declares the header for
it. -/
def RepeatsAuthorization : Prop :=
  (options.authorization && isSecured document o.content) = true ∧
    DeclaresHeader document o "authorization"

/-- A request has the headers that are declared, and the type of its body. -/
theorem foldedKeys_requestItem : foldedKeys (requestItem document options o).request.headers =
    (declaredHeaders document o).map Text.asciiLowercase ++
      if (requestItem document options o).request.body.isSome then ["content-type"] else [] := by
  have type : Text.asciiLowercase "Content-Type" = "content-type" := by decide +kernel
  rw [requestItem, requestOf, foldedKeys, declaredHeaders, List.map_append]
  congr 1
  · simp [Header.text]
  · cases requestBody? document options.examples
      (mergeParameters document o.shared (o.content.get? "parameters")) o.content <;>
      simp [Header.text, type]

def exampleRequest : Request :=
  let request := (requestItem document options o).request
  if options.authorization && isSecured document o.content then
    { request with headers := request.headers ++ [bearerHeader] }
  else request

theorem originals_requestItem : (requestItem document options o).originals =
    (o.content.getMembers "responses").map fun _ => exampleRequest document options o := by
  rw [RequestItem.originals, requestItem, savedResponses, List.filterMap_map]
  exact congrFun (List.filterMap_eq_map (f := fun _ => exampleRequest document options o)) _

private theorem forall_originals_requestItem {p : Request → Prop} :
    (∀ q ∈ (requestItem document options o).originals, p q) ↔
      o.content.getMembers "responses" = [] ∨ p (exampleRequest document options o) := by
  rw [originals_requestItem]
  cases o.content.getMembers "responses" with
  | nil => simp
  | cons response responses => simpa using fun h _ => h

variable (distinct : ((declaredHeaders document o).map Text.asciiLowercase).Nodup)

include distinct

theorem distinctHeaders_requestItem :
    DistinctHeaders (requestItem document options o).request.headers ↔
      ¬RepeatsType document options o := by
  rw [DistinctHeaders, foldedKeys_requestItem, RepeatsType, DeclaresHeader]
  split
  · rename_i sent
    simp [sent, ← List.concat_eq_append, List.nodup_concat, distinct]
  · rename_i unsent
    simp [unsent, distinct]

theorem distinctHeaders_exampleRequest :
    DistinctHeaders (exampleRequest document options o).headers ↔
      ¬RepeatsType document options o ∧ ¬RepeatsAuthorization document options o := by
  have name : Text.asciiLowercase bearerHeader.key = "authorization" := by decide +kernel
  have other : ("authorization" : String) ≠ "content-type" := by decide
  rw [exampleRequest, RepeatsAuthorization]
  split
  · rename_i shown
    rw [distinctHeaders_concat, distinctHeaders_requestItem document options o distinct, name,
      foldedKeys_requestItem, List.mem_append, DeclaresHeader]
    split <;> simp [shown, other]
  · rename_i hidden
    simp [hidden, distinctHeaders_requestItem document options o distinct]

end Conversion

namespace Enhancer

open Conversion

/-- The finished requests are what the enhancer makes of the operations, up to their order. -/
theorem requests_enhance_of_convert (e : Enhancer) {document : Json} {options : Options}
    {c : Collection} (h : convert document options = .ok c) :
    ∃ moved, moved.Perm (e.enhance c).1.requests ∧
      List.Forall₂ (fun o s => Completed e.cache (prepare (requestItem document options o)) s)
        (operations document) moved := by
  obtain ⟨completed, related, perm⟩ := requests_enhance_perm e c
  obtain ⟨moved, related, same⟩ :=
    List.perm_comp_forall₂ (requests_perm_of_convert h).symm related
  rw [List.forall₂_map_left_iff] at related
  exact ⟨moved, same.trans perm, related⟩

/-- When the headers that an operation declares are distinct, then so are those of its finished
request, unless the type of a body that is sent is declared. The headers of the requests of its
examples are distinct unless there are examples and that type or the authorisation that they show is
declared. -/
theorem distinctHeaders_enhance (e : Enhancer) {document : Json} {options : Options}
    {c : Collection} (h : convert document options = .ok c) :
    ∃ moved, moved.Perm (e.enhance c).1.requests ∧
      List.Forall₂ (fun o s => ((declaredHeaders document o).map Text.asciiLowercase).Nodup →
        (DistinctHeaders s.request.headers ↔ ¬RepeatsType document options o) ∧
        ((∀ q ∈ s.originals, DistinctHeaders q.headers) ↔
          o.content.getMembers "responses" = [] ∨
            ¬RepeatsType document options o ∧ ¬RepeatsAuthorization document options o))
        (operations document) moved := by
  obtain ⟨moved, perm, related⟩ := requests_enhance_of_convert e h
  refine ⟨moved, perm, related.imp ?_⟩
  intro o s completed distinct
  rw [distinctHeaders_of_completed completed, originals_of_completed completed,
    forall_originals_requestItem]
  exact ⟨distinctHeaders_requestItem document options o distinct,
    or_congr_right (distinctHeaders_exampleRequest document options o distinct)⟩

/-- The import of some data, which is secured and has an answer, with one header. -/
def importOperation (header : String) : Operation where
  path := "/imports"
  method := "post"
  content := .object [
    ("parameters", .array [.object [("name", .string header), ("in", .string "header"),
      ("schema", .object [("type", .string "string")])]]),
    ("requestBody", .object [("content", .object [("application/json", .object [
      ("schema", .object [("type", .string "object")])])])]),
    ("responses", .object [("201", .object [("description", .string "Created")])]),
    ("security", .array [.object [("bearer", .array [])]])]
  shared := none

def importDocument (header : String) : Json :=
  .object [("paths", .object [("/imports", .object [("post", (importOperation header).content)])])]

theorem operations_importDocument (header : String) :
    operations (importDocument header) = [importOperation header] := rfl

private theorem declaredHeaders_importOperation (header : String) :
    declaredHeaders (importDocument header) (importOperation header) = [header] := rfl

theorem convert_importDocument (header : String) :
    ∃ c, convert (importDocument header) {} = .ok c := by
  have found : (importDocument header).get? "paths" =
    some (.object [("/imports", .object [("post", (importOperation header).content)])]) := rfl
  have operation : operations (importDocument header) ≠ [] := by
    rw [operations_importDocument]
    exact List.cons_ne_nil _ _
  obtain ⟨c, h, -⟩ := convert_requests {} found operation
  exact ⟨c, h⟩

theorem distinctHeaders_enhance_traced :
    let e : Enhancer := { stream := Stream.ofSeed 42 }
    ∃ c, convert (importDocument "X-Trace") {} = .ok c ∧
      ∀ r ∈ (e.enhance c).1.requests,
        DistinctHeaders r.request.headers ∧ ∀ q ∈ r.originals, DistinctHeaders q.headers := by
  intro e
  obtain ⟨c, h⟩ := convert_importDocument "X-Trace"
  refine ⟨c, h, fun r hr => ?_⟩
  obtain ⟨moved, perm, related⟩ := distinctHeaders_enhance e h
  obtain ⟨o, member, distinct⟩ := (forall₂_members related).2 r (perm.symm.subset hr)
  rw [operations_importDocument, List.mem_singleton] at member
  subst member
  have undeclared : ∀ name ∈ ["content-type", "authorization"],
      ¬DeclaresHeader (importDocument "X-Trace") (importOperation "X-Trace") name := by
    simp only [DeclaresHeader, declaredHeaders_importOperation]
    decide +kernel
  have type : ¬RepeatsType (importDocument "X-Trace") {} (importOperation "X-Trace") :=
    fun repeated => undeclared _ List.mem_cons_self repeated.2
  have authorization :
      ¬RepeatsAuthorization (importDocument "X-Trace") {} (importOperation "X-Trace") :=
    fun repeated => undeclared _ (List.mem_cons_of_mem _ List.mem_cons_self) repeated.2
  have one : ((declaredHeaders (importDocument "X-Trace") (importOperation "X-Trace")).map
      Text.asciiLowercase).Nodup := List.nodup_singleton _
  exact ⟨(distinct one).1.2 type, (distinct one).2.2 (.inr ⟨type, authorization⟩)⟩

/-- The type of a body is sent twice when its header is declared, and shown twice in the requests of
the examples. -/
theorem exists_repeated_header :
    let e : Enhancer := { stream := Stream.ofSeed 42 }
    ∃ document c,
      (∀ o ∈ operations document, ((declaredHeaders document o).map Text.asciiLowercase).Nodup) ∧
      convert document {} = .ok c ∧
      ∃ r ∈ (e.enhance c).1.requests,
        ¬DistinctHeaders r.request.headers ∧ ∃ q ∈ r.originals, ¬DistinctHeaders q.headers := by
  intro e
  obtain ⟨c, h⟩ := convert_importDocument "Content-Type"
  obtain ⟨moved, perm, related⟩ := requests_enhance_of_convert e h
  rw [operations_importDocument] at related
  obtain ⟨r, rest, completed, -, rfl⟩ := List.forall₂_cons_left_iff.1 related
  have one : ((declaredHeaders (importDocument "Content-Type")
      (importOperation "Content-Type")).map Text.asciiLowercase).Nodup := List.nodup_singleton _
  have type : RepeatsType (importDocument "Content-Type") {} (importOperation "Content-Type") := by
    refine ⟨rfl, ?_⟩
    rw [DeclaresHeader, declaredHeaders_importOperation]
    decide +kernel
  have request := distinctHeaders_requestItem _ {} _ one
  have shown := distinctHeaders_exampleRequest _ {} _ one
  refine ⟨importDocument "Content-Type", c, ?_, h, r, perm.subset List.mem_cons_self, ?_, ?_⟩
  · rw [operations_importDocument]
    simpa using one
  · rw [distinctHeaders_of_completed completed, request]
    exact not_not_intro type
  · rw [originals_of_completed completed]
    refine ⟨exampleRequest _ {} _, ?_, fun distinct => (shown.1 distinct).1 type⟩
    rw [originals_requestItem]
    exact List.mem_cons_self

end Enhancer
end ApiCollection
