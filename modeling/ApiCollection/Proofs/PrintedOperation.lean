import ApiCollection.OpenApi.Printer
import ApiCollection.Proofs.OverriddenParameters

/-!
# Printed operations read back

The conversion looks up the members of a printed operation by their keys. What it finds are the
parameters of the endpoint location by location, its body, and one response for each status.
-/

namespace ApiCollection

namespace Json

/-- Looking up a member of an object of fields that may be absent. -/
theorem get?_present_cons (k key : String) (value : Option Json)
    (fields : List (String × Option Json)) :
    (object (present ((k, value) :: fields))).get? key =
      if key = k then value.or ((object (present fields)).get? key)
      else (object (present fields)).get? key := by
  cases value with
  | none => simp [present, get?, members?]
  | some v =>
    rw [present, List.filterMap_cons]
    simp only [Option.map_some, get?, members?, Option.bind_some, Table.get?_cons]
    split <;> rfl

@[simp] theorem get?_present_nil (key : String) : (object (present [])).get? key = none := rfl

end Json

structure ParameterSet.DistinctNames {α : Type} (s : ParameterSet α) : Prop where
  path : (s.path.map (·.name)).Nodup
  query : (s.query.map (·.name)).Nodup
  header : (s.header.map (·.name)).Nodup

namespace Conversion

open OpenApi
open Json (nonEmpty?)

theorem resolve_of_no_reference {document value : Json} (h : value.get? "$ref" = none) :
    resolve document value = value := by
  have target : target? document value = none := by simp [target?, Json.getString?, h]
  rw [resolve, maxDepth, resolveAtMost, target]

section Parameters

variable (location : Location) (p : Parameter Json)

private theorem get?_parameterJson_ref : (parameterJson location p).get? "$ref" = none := by
  simp [parameterJson, Json.get?_present_cons]

@[simp] theorem getString?_parameterJson_name :
    (parameterJson location p).getString? "name" = some p.name := by
  simp [parameterJson, Json.getString?, Json.get?_present_cons, Json.string?]

@[simp] theorem getString?_parameterJson_in :
    (parameterJson location p).getString? "in" = some location.name := by
  simp [parameterJson, Json.getString?, Json.get?_present_cons, Json.string?]

@[simp] theorem parameterKey_parameterJson :
    parameterKey (parameterJson location p) = (p.name, location.name) := by
  simp [parameterKey]

end Parameters

def written (s : ParameterSet Json) : List Json := s.ordered.map fun (l, p) => parameterJson l p

theorem written_eq (s : ParameterSet Json) : written s = s.path.map (parameterJson .path) ++
    s.query.map (parameterJson .query) ++ s.header.map (parameterJson .header) := by
  simp [written, ParameterSet.ordered, Function.comp_def]

private theorem nodup_keys_written {s : ParameterSet Json} (distinct : s.DistinctNames) :
    ((written s).map parameterKey).Nodup := by
  have one (location : Location) {ps : List (Parameter Json)} (names : (ps.map (·.name)).Nodup) :
      (ps.map fun p => (p.name, location.name)).Nodup := by
    have pairs := names.map (f := fun name => (name, location.name)) fun a b same =>
      (Prod.mk.inj same).1
    rwa [List.map_map] at pairs
  have apart {a b : Location} (ne : a.name ≠ b.name) (ps qs : List (Parameter Json)) :
      ∀ x ∈ ps.map (fun p => (p.name, a.name)), ∀ y ∈ qs.map (fun p => (p.name, b.name)), x ≠ y := by
    intro x hx y hy same
    obtain ⟨p, -, rfl⟩ := List.mem_map.1 hx
    obtain ⟨q, -, rfl⟩ := List.mem_map.1 hy
    exact ne (Prod.mk.inj same).2
  rw [written_eq]
  simp only [List.map_append, List.map_map, Function.comp_def, parameterKey_parameterJson]
  rw [List.nodup_append, List.nodup_append]
  refine ⟨⟨one .path distinct.path, one .query distinct.query, apart (by decide) _ _⟩,
    one .header distinct.header, ?_⟩
  intro x hx y hy
  obtain path | query := List.mem_append.1 hx
  · exact apart (by decide) _ _ x path y hy
  · exact apart (by decide) _ _ x query y hy

/-- Parameters are read as they are written. -/
theorem listedParameters_written (document : Json) (s : ParameterSet Json) :
    listedParameters document none (nonEmpty? (written s)) = written s := by
  have items : ((nonEmpty? (written s)).bind Json.items?).getD [] = written s := by
    rw [nonEmpty?]
    split
    · rename_i empty
      rw [List.isEmpty_iff.1 empty]
      rfl
    · rfl
  have resolved : (written s).map (resolve document) = written s := by
    conv_rhs => rw [← List.map_id' (written s)]
    refine List.map_inj_left.2 ?_
    intro j hj
    obtain ⟨⟨l, p⟩, -, rfl⟩ := List.mem_map.1 hj
    exact resolve_of_no_reference (get?_parameterJson_ref l p)
  rw [listedParameters, items]
  exact resolved

theorem mergeParameters_written (document : Json) {s : ParameterSet Json}
    (distinct : s.DistinctNames) :
    mergeParameters document none (nonEmpty? (written s)) = written s := by
  rw [mergeParameters_eq_overridden, listedParameters_written]
  exact overridden_eq_self (nodup_keys_written distinct)

theorem located_map (location : Location) (name : String) (ps : List (Parameter Json)) :
    located name (ps.map (parameterJson location)) =
      if location.name = name then ps.map fun p => (p.name, parameterJson location p) else [] := by
  rw [located, List.filterMap_map]
  split
  · rename_i same
    rw [← List.filterMap_eq_map]
    refine List.filterMap_congr ?_
    intro p _
    simp [same]
  · rename_i other
    rw [List.filterMap_eq_nil_iff]
    intro p _
    simp [other]

theorem located_append (name : String) (ps qs : List Json) :
    located name (ps ++ qs) = located name ps ++ located name qs := List.filterMap_append

section Located

variable (s : ParameterSet Json)

theorem located_path : (located "path" (written s)).map Prod.fst = s.path.map (·.name) := by
  simp [written_eq, located_append, located_map, Location.name, Function.comp_def]

theorem located_query : (located "query" (written s)).map Prod.fst = s.query.map (·.name) := by
  simp [written_eq, located_append, located_map, Location.name, Function.comp_def]

theorem located_header : (located "header" (written s)).map Prod.fst = s.header.map (·.name) := by
  simp [written_eq, located_append, located_map, Location.name, Function.comp_def]

private theorem located_body : located "body" (written s) = [] := by
  simp [written_eq, located_append, located_map, Location.name]

end Located

/-- The path parameters that are read are named as those that are written, also where several have
one name. -/
theorem mem_located_path_iff (document : Json) (s : ParameterSet Json) (name : String) :
    name ∈ (located "path" (mergeParameters document none (nonEmpty? (written s)))).map Prod.fst ↔
      name ∈ s.path.map (·.name) := by
  rw [mergeParameters_eq_overridden, listedParameters_written]
  have byKey (ps : List Json) (h : ps ⊆ written s) :
      name ∈ (located "path" ps).map Prod.fst ↔ (name, "path") ∈ ps.map parameterKey := by
    simp only [located, List.mem_map, List.mem_filterMap]
    constructor
    · rintro ⟨⟨k, q⟩, ⟨p, member, found⟩, rfl⟩
      refine ⟨p, member, ?_⟩
      obtain ⟨⟨l, param⟩, -, rfl⟩ := List.mem_map.1 (h member)
      rw [getString?_parameterJson_in, getString?_parameterJson_name] at found
      split at found
      · rename_i location
        have named : param.name = k := by simpa using congrArg (Option.map Prod.fst) found
        have place : l.name = "path" := by simpa using location
        rw [parameterKey_parameterJson, named, place]
      · cases found
    · rintro ⟨p, member, same⟩
      obtain ⟨⟨l, param⟩, -, rfl⟩ := List.mem_map.1 (h member)
      rw [parameterKey_parameterJson, Prod.mk.injEq] at same
      exact ⟨(name, parameterJson l param), ⟨_, member, by simp [same]⟩, rfl⟩
  rw [byKey _ (overridden_subset _), keys_overridden, List.mem_eraseDups,
    ← byKey _ (List.Subset.refl _), located_path]

section Members

variable (e : Endpoint Json)

theorem get?_operationJson_parameters :
    (operationJson e).get? "parameters" = nonEmpty? (written e.parameters) := by
  simp [operationJson, Json.get?_present_cons, written]

private theorem get?_operationJson_requestBody :
    (operationJson e).get? "requestBody" = e.body.map bodyJson := by
  simp [operationJson, Json.get?_present_cons]

private theorem getMembers_operationJson_responses : (operationJson e).getMembers "responses" =
    Table.ofList ((if e.responses.isEmpty then [plainResponse] else e.responses).map fun r =>
      (Decimal.natText r.status.toNat, responseJson r)) := by
  simp [operationJson, Json.getMembers, Json.get?_present_cons, responsesJson, Json.members?]

end Members

/-- A body is found exactly when there is one. -/
theorem requestBody?_isSome (document : Json) (source : ValueSource) (e : Endpoint Json) :
    (requestBody? document source (written e.parameters) (operationJson e)).isSome =
      e.body.isSome := by
  rw [requestBody?, get?_operationJson_requestBody]
  cases e.body with
  | none => simp [pickMedia?, located_body]
  | some b =>
    have noReference : (bodyJson b).get? "$ref" = none := by
      simp [bodyJson, Json.get?, Json.members?, Table.get?_cons]
    have content : (bodyJson b).get? "content" =
        some (contentJson b.contentType (some b.schema) b.example?) := by
      simp [bodyJson, Json.get?, Json.members?, Table.get?_cons]
    have media : ∃ m, pickMedia? (some (contentJson b.contentType (some b.schema) b.example?)) =
        some m := by
      rw [← Option.isSome_iff_exists, contentJson, pickMedia?]
      simp [Json.members?]
    obtain ⟨⟨type, m⟩, media⟩ := media
    simp [resolve_of_no_reference noReference, content, media]

private theorem decimal?_toDigits (n : Nat) : Json.decimal? (Nat.toDigits 10 n) = some n := by
  have digits : (Nat.toDigits 10 n).all Char.isDigit = true := by
    rw [List.all_eq_true]
    intro c hc
    exact Nat.isDigit_of_mem_toDigits (by decide) (by decide) hc
  have value : (Nat.toDigits 10 n).foldl (fun n c => n * 10 + (c.toNat - '0'.toNat)) 0 = n := by
    have core := Nat.ofDigitChars_ten_toDigits (n := n)
    rw [Nat.ofDigitChars] at core
    conv_rhs => rw [← core]
    congr 1
    funext m c
    rw [Nat.mul_comm]
  have nonempty : (Nat.toDigits 10 n).isEmpty = false := by
    simp [Nat.toDigits_ne_nil]
  rw [Json.decimal?, nonempty, digits, value]
  rfl

/-- A code is read back from its text. -/
theorem statusCode_natText (code : UInt16) : statusCode (Decimal.natText code.toNat) = code := by
  have unsigned : Text.after? ['+'] (Nat.toDigits 10 code.toNat) = none := by
    cases found : Text.after? ['+'] (Nat.toDigits 10 code.toNat) with
    | none => rfl
    | some rest =>
      have plus : '+' ∈ Nat.toDigits 10 code.toNat := by
        rw [Text.after?_eq_some_iff.1 found]
        exact List.mem_cons_self
      have := Nat.isDigit_of_mem_toDigits (by decide) (by decide) plus
      exact absurd this (by decide)
  have small : code.toNat < 65536 := code.toNat_lt
  have kept : (some code.toNat).filter (fun n => decide (n < 65536)) = some code.toNat := by
    simp [small]
  rw [statusCode, Decimal.natText, String.toList_ofList, unsigned, Option.getD_none,
    decimal?_toDigits, kept]
  exact UInt16.ofNat_toNat

def shownStatuses (e : Endpoint Json) : List UInt16 :=
  if e.responses.isEmpty then [200] else e.responses.map (·.status)

private theorem code_savedResponse (document : Json) (source : ValueSource) (request : Request)
    (status : String) (response : Json) :
    (savedResponse document source request status response).code = statusCode status := by
  simp only [savedResponse]
  split <;> rfl

private theorem codes_savedResponses (document : Json) (options : Options) (content : Json)
    (request : Request) : (savedResponses document options content request).map (·.code) =
      (content.getMembers "responses").keys.map statusCode := by
  simp only [savedResponses, List.map_map, Table.keys]
  refine List.map_inj_left.2 ?_
  rintro ⟨status, response⟩ -
  exact code_savedResponse _ _ _ _ _

/-- An endpoint has a saved response for each status that it shows, and only one. -/
theorem codes_operationJson (document : Json) (options : Options) (e : Endpoint Json)
    (request : Request) :
    ((savedResponses document options (operationJson e) request).map (·.code)).Nodup ∧
      ∀ code, code ∈ (savedResponses document options (operationJson e) request).map (·.code) ↔
        code ∈ shownStatuses e := by
  obtain ⟨nodup, mem⟩ := Table.keys_ofList ((if e.responses.isEmpty then [plainResponse]
    else e.responses).map fun r => (Decimal.natText r.status.toNat, responseJson r))
  rw [codes_savedResponses, getMembers_operationJson_responses]
  have keys : ∀ key, key ∈ (Table.ofList ((if e.responses.isEmpty then [plainResponse]
      else e.responses).map fun r => (Decimal.natText r.status.toNat, responseJson r))).keys ↔
      ∃ code ∈ shownStatuses e, Decimal.natText code.toNat = key := by
    intro key
    rw [mem key, shownStatuses]
    split <;> simp [plainResponse, eq_comm]
  constructor
  · refine List.Nodup.map_on ?_ nodup
    intro a ha b hb same
    obtain ⟨m, -, rfl⟩ := (keys a).1 ha
    obtain ⟨n, -, rfl⟩ := (keys b).1 hb
    rw [statusCode_natText, statusCode_natText] at same
    rw [same]
  · intro code
    rw [List.mem_map]
    constructor
    · rintro ⟨key, hk, rfl⟩
      obtain ⟨n, hn, rfl⟩ := (keys key).1 hk
      rwa [statusCode_natText]
    · intro shown
      exact ⟨_, (keys _).2 ⟨code, shown, rfl⟩, statusCode_natText code⟩

end Conversion
end ApiCollection
