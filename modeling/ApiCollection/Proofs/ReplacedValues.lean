import ApiCollection.Conversion.Request
import ApiCollection.Json.Parser
import ApiCollection.Proofs.TableEntries
import Mathlib.Data.Nat.Digits.Defs

/-!
# Replaced values

A value stands in another one behind some steps, and a value can take its place there. What other
steps lead to then stays the same, unless they lead along the way or on into what is replaced.
-/

namespace ApiCollection

namespace Json

private theorem foldl_digits (cs : List Char) :
    cs.foldl (fun n c => n * 10 + (c.toNat - '0'.toNat)) 0 =
    Nat.ofDigits 10 (cs.reverse.map digitValue) := by
  rw [Nat.ofDigits_eq_foldr, List.foldr_map, List.foldr_reverse]
  congr 1
  funext n c
  simp only [Nat.cast_id, digitValue]
  omega

theorem isDigit_iff {c : Char} : c.isDigit = true ↔ 48 ≤ c.toNat ∧ c.toNat ≤ 57 := by
  simp [Char.isDigit, UInt32.le_iff_toNat_le]

theorem ofNat_digitValue {c : Char} (h : c.isDigit = true) :
    Char.ofNat (digitValue c + 48) = c := by
  have bounds := isDigit_iff.1 h
  have code : digitValue c + 48 = c.toNat := by
    have zero : '0'.toNat = 48 := rfl
    rw [digitValue, zero]
    omega
  rw [code, Char.ofNat_toNat]

private theorem map_ofNat_digitValue {cs : List Char} (h : ∀ c ∈ cs, c.isDigit = true) :
    (cs.map digitValue).map (fun n => Char.ofNat (n + 48)) = cs := by
  rw [List.map_map]
  exact (List.map_congr_left fun c hc => ofNat_digitValue (h c hc)).trans (List.map_id cs)

private theorem digitValue_lt {c : Char} (h : c.isDigit = true) : digitValue c < 10 := by
  have bounds := isDigit_iff.1 h
  have zero : '0'.toNat = 48 := rfl
  rw [digitValue, zero]
  omega

theorem of_decimal? {cs : List Char} {n : Nat} (h : decimal? cs = some n) :
    cs ≠ [] ∧ (∀ c ∈ cs, c.isDigit = true) ∧ Nat.ofDigits 10 (cs.reverse.map digitValue) = n := by
  unfold decimal? at h
  split at h
  · cases h
  · rename_i accepted
    simp only [Bool.or_eq_true, Bool.not_eq_true', not_or, List.isEmpty_iff, Bool.not_eq_false,
      List.all_eq_true] at accepted
    rw [foldl_digits] at h
    exact ⟨accepted.1, accepted.2, Option.some.inj h⟩

/-- A number that is not zero has the digits of its text, if that does not begin with zero. -/
theorem digits_of_decimal? {c : Char} {cs : List Char} {n : Nat} (h : decimal? (c :: cs) = some n)
    (leading : c ≠ '0') :
    n ≠ 0 ∧ Nat.digits 10 n = (c :: cs).reverse.map digitValue := by
  obtain ⟨-, digits, value⟩ := of_decimal? h
  have small : ∀ d ∈ (c :: cs).reverse.map digitValue, d < 10 := by
    intro d hd
    obtain ⟨c', member, rfl⟩ := List.mem_map.1 hd
    exact digitValue_lt (digits c' (List.mem_reverse.1 member))
  have highest : ∀ nonempty, ((c :: cs).reverse.map digitValue).getLast nonempty ≠ 0 := by
    intro nonempty none
    simp only [List.reverse_cons, List.map_append, List.map_singleton,
      List.getLast_append_singleton] at none
    have digit := ofNat_digitValue (digits c List.mem_cons_self)
    rw [none] at digit
    exact leading digit.symm
  have written := Nat.digits_ofDigits 10 (by decide) _ small highest
  rw [value] at written
  refine ⟨?_, written⟩
  rintro rfl
  simp at written

/-- The text of a number of an item has the digits of the number; zero is one digit. -/
theorem digits_of_itemIndex? {step : String} {i : Nat} (h : itemIndex? step = some i) :
    (∀ c ∈ step.toList, c.isDigit = true) ∧
      (step.toList = ['0'] ∧ i = 0 ∨
        i ≠ 0 ∧ Nat.digits 10 i = step.toList.reverse.map digitValue) := by
  have read : decimal? step.toList = some i ∧ ∀ d ds, step.toList ≠ '0' :: d :: ds := by
    unfold itemIndex? at h
    split at h
    · cases h
    · rename_i short
      exact ⟨h, short⟩
  generalize step.toList = text at read
  obtain ⟨value, short⟩ := read
  obtain ⟨full, digits, -⟩ := of_decimal? value
  refine ⟨digits, ?_⟩
  cases text with
  | nil => exact absurd rfl full
  | cons c cs =>
    by_cases zero : c = '0'
    · subst zero
      cases cs with
      | nil => exact .inl ⟨rfl, (Option.some.inj value).symm⟩
      | cons d ds => exact absurd rfl (short d ds)
    · exact .inr (digits_of_decimal? value zero)

private theorem itemIndex?_injective {step other : String} {i : Nat} (h : itemIndex? step = some i)
    (h' : itemIndex? other = some i) : step = other := by
  obtain ⟨digits, value⟩ := digits_of_itemIndex? h
  obtain ⟨digits', value'⟩ := digits_of_itemIndex? h'
  refine String.toList_inj.1 ?_
  rcases value with ⟨text, rfl⟩ | ⟨positive, value⟩
  · rcases value' with ⟨text', -⟩ | ⟨positive, -⟩
    · rw [text, text']
    · exact absurd rfl positive
  · rcases value' with ⟨-, zero⟩ | ⟨-, value'⟩
    · exact absurd zero positive
    · have same := value.symm.trans value'
      rw [List.map_reverse, List.map_reverse, List.reverse_inj] at same
      rw [← map_ofNat_digitValue digits, same, map_ofNat_digitValue digits']

theorem step?_eq_or (value : Json) (step : String) : value.step? step =
    (value.members?.bind (·.get? step)).or
      (value.items?.bind fun items => (itemIndex? step).bind fun i => items[i]?) := by
  cases value <;> simp [step?, members?, items?]

private theorem step?_eq_get? {key : String} (name : itemIndex? key = none) (value : Json) :
    value.step? key = value.get? key := by
  cases value <;> simp [step?, Json.get?, members?, name]

theorem follow?_pair {key : String} (name : itemIndex? key = none) (value : Json)
    (step : String) : value.follow? [key, step] = (value.get? key).bind (·.step? step) := by
  simp [step?_eq_get? name]

/-- `after` is `before` with `new` in the place of `old` behind some steps. -/
inductive Replaced (old new : Json) : List String → Json → Json → Prop
  | here : Replaced old new [] old new
  | member {key : String} {steps : List String} {before after : Json} (front back : Members)
      (absent : key ∉ front.keys) (inside : Replaced old new steps before after) :
      Replaced old new (key :: steps) (.object (front ++ (key, before) :: back))
        (.object (front ++ (key, after) :: back))
  | item {step : String} {steps : List String} {before after : Json} (front back : List Json)
      (index : itemIndex? step = some front.length) (inside : Replaced old new steps before after) :
      Replaced old new (step :: steps) (.array (front ++ before :: back))
        (.array (front ++ after :: back))

section Replaced

variable {old new before after : Json} {steps : List String}

private theorem get?_replaced {front : Members} {key : String} (absent : key ∉ front.keys)
    (value : Json)
    (back : Members) : Table.get? (front ++ (key, value) :: back) key = some value := by
  rw [Table.get?_append, Table.get?_eq_none absent, Table.get?_cons, if_pos rfl]
  rfl

private theorem get?_beside (front back : Members) {key other : String} (value value' : Json)
    (different : other ≠ key) : Table.get? (front ++ (key, value) :: back) other =
      Table.get? (front ++ (key, value') :: back) other := by
  rw [Table.get?_append, Table.get?_append, Table.get?_cons, Table.get?_cons, if_neg different,
    if_neg different]

private theorem getElem?_beside (front back : List Json) {i : Nat} (value value' : Json)
    (different : i ≠ front.length) :
    (front ++ value :: back)[i]? = (front ++ value' :: back)[i]? := by
  rw [List.getElem?_append, List.getElem?_append]
  split
  · rfl
  · obtain ⟨n, found⟩ : ∃ n, i - front.length = n + 1 := ⟨i - front.length - 1, by omega⟩
    rw [found, List.getElem?_cons_succ, List.getElem?_cons_succ]

/-- What some steps lead to is the same, or has the replaced part in it, or lies in that part. -/
theorem Replaced.follow? (replaced : Replaced old new steps before after) (along : List String) :
    before.follow? along = after.follow? along ∨
      (∃ rest x y, steps = along ++ rest ∧ before.follow? along = some x ∧
        after.follow? along = some y ∧ Replaced old new rest x y) ∨
      steps <+: along := by
  -- where the next step goes to the part that has the replaced one in it, the cases are those of
  -- that part, and elsewhere nothing has changed
  induction replaced generalizing along with
  | here => exact .inr (.inr List.nil_prefix)
  | @member key steps before after front back absent inside ih =>
    cases along with
    | nil => exact .inr (.inl ⟨_, _, _, rfl, rfl, rfl, .member front back absent inside⟩)
    | cons other along =>
      rw [follow?_cons, follow?_cons, step?, step?]
      by_cases same : other = key
      · subst same
        rw [get?_replaced absent, get?_replaced absent, Option.bind_some, Option.bind_some,
          List.prefix_cons_inj]
        simpa only [List.cons_append, List.cons.injEq, true_and] using ih along
      · rw [get?_beside front back before after same]
        exact .inl rfl
  | @item step steps before after front back index inside ih =>
    cases along with
    | nil => exact .inr (.inl ⟨_, _, _, rfl, rfl, rfl, .item front back index inside⟩)
    | cons other along =>
      rw [follow?_cons, follow?_cons, step?, step?]
      cases number : itemIndex? other with
      | none => exact .inl rfl
      | some i =>
        rw [Option.bind_some, Option.bind_some]
        by_cases same : i = front.length
        · subst same
          obtain rfl := itemIndex?_injective index number
          simp only [List.getElem?_append_right (Nat.le_refl _), Nat.sub_self,
            List.getElem?_cons_zero, Option.bind_some, List.prefix_cons_inj, List.cons_append,
            List.cons.injEq, true_and]
          exact ih along
        · rw [getElem?_beside front back before after same]
          exact .inl rfl

end Replaced

/-- The steps that a reference leads along, if a value is one into the document. -/
def referenceSteps? (value : Json) : Option (List String) := do
  let reference ← value.getString? "$ref"
  let pointer ← Text.after? ['#'] reference.toList
  pointerSteps? (String.ofList pointer)

mutual

/-- Where all the references in a value lead. -/
def references : Json → List (List String)
  | .object members => (referenceSteps? (.object members)).toList ++ memberReferences members
  | .array items => itemReferences items
  | _ => []

def memberReferences : List (String × Json) → List (List String)
  | [] => []
  | (_, value) :: rest => value.references ++ memberReferences rest

def itemReferences : List Json → List (List String)
  | [] => []
  | value :: rest => value.references ++ itemReferences rest

end

private theorem memberReferences_eq (members : Members) :
    memberReferences members = members.flatMap fun e => e.2.references := by
  induction members with
  | nil => rfl
  | cons e members ih =>
    rw [memberReferences, ih, List.flatMap_cons]

private theorem itemReferences_eq (items : List Json) :
    itemReferences items = items.flatMap references := by
  induction items with
  | nil => rfl
  | cons value items ih => rw [itemReferences, ih, List.flatMap_cons]

theorem references_of_member {members : Members} {e : String × Json} (h : e ∈ members) :
    e.2.references ⊆ (Json.object members).references := by
  intro steps hs
  rw [references, memberReferences_eq]
  exact List.mem_append_right _ (List.mem_flatMap.2 ⟨e, h, hs⟩)

theorem references_of_item {items : List Json} {value : Json} (h : value ∈ items) :
    value.references ⊆ (Json.array items).references := by
  intro steps hs
  rw [references, itemReferences_eq]
  exact List.mem_flatMap.2 ⟨value, h, hs⟩

private theorem references_of_step? {value inner : Json} {step : String}
    (h : value.step? step = some inner) : inner.references ⊆ value.references := by
  cases value with
  | object members => exact references_of_member (Table.mem_of_get?_eq_some h)
  | array items =>
    obtain ⟨i, -, found⟩ := Option.bind_eq_some_iff.1 h
    exact references_of_item (List.mem_of_getElem? found)
  | _ => cases h

theorem references_of_follow? {value inner : Json} {steps : List String}
    (h : value.follow? steps = some inner) : inner.references ⊆ value.references := by
  induction steps generalizing value with
  | nil =>
    rw [Option.some.inj h]
    exact List.Subset.refl _
  | cons step steps ih =>
    obtain ⟨next, first, rest⟩ := Option.bind_eq_some_iff.1 h
    exact List.Subset.trans (ih rest) (references_of_step? first)

theorem references_of_self {value : Json} {steps : List String}
    (h : referenceSteps? value = some steps) : steps ∈ value.references := by
  cases value with
  | object members =>
    rw [references, h]
    exact List.mem_append_left _ List.mem_cons_self
  | _ => cases h

end Json

namespace Conversion

/-- A reference object is resolved by following its steps through the document. -/
theorem target?_eq (document value : Json) :
    target? document value = (Json.referenceSteps? value).bind document.follow? := by
  unfold target? Json.referenceSteps? Json.at?
  simp only [Option.bind_eq_bind, Option.bind_assoc]

end Conversion

end ApiCollection
