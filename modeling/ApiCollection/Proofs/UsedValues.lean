import ApiCollection.Conversion.Basic
import ApiCollection.Proofs.RelatedValues
import ApiCollection.Proofs.ReplacedValues

/-!
# Uses of values in operations

An operation uses values as its parameters, bodies, responses and their schemas, and schemas use
others in turn. When a reference stands for one of these values, whatever reads the document finds
what it finds without the reference, as long as it resolves a value before it looks into it.
-/

namespace ApiCollection.Conversion

def partKeys : List String := ["schema", "items", "requestBody"]

/-- Keys of several values that are used, by name or in order. -/
def listKeys : List String := ["properties", "responses", "allOf", "oneOf", "anyOf", "parameters"]

def isPlain (key : String) : Bool :=
  !partKeys.contains key && !listKeys.contains key && key != "content"

/-- Whether some steps lead from an operation, or from something that it uses, to a use. -/
def isUse : List String → Bool
  | [] => true
  | [key] => partKeys.contains key
  | key :: step :: rest =>
    partKeys.contains key && isUse (step :: rest) || listKeys.contains key && isUse rest ||
      key == "content" && rest.head? == some "schema" && isUse rest

/-- Whether some steps lead from a document to a use in an operation. -/
def isDocumentUse : List String → Bool
  | "paths" :: _ :: "parameters" :: _ :: rest => isUse rest
  | "paths" :: _ :: method :: rest =>
    methodKeys.contains method && !rest.isEmpty && isUse rest
  | _ => false

def referenceTo (pointer : String) : Json := .object [("$ref", .string ("#" ++ pointer))]

/-- Whether a reference along some steps leads past a use, or to something that has it as a use. -/
def spares (use along : List String) : Bool :=
  !use.isPrefixOf along && (!along.isPrefixOf use || isUse (use.drop along.length))

/-- A document with a value at one of its uses, and the same document with a reference to that
value there. -/
structure Referral where
  plain : Json
  referred : Json
  use : List String
  value : Json
  pointer : String
  used : isDocumentUse use = true
  replaced : Json.Replaced value (referenceTo pointer) use plain referred
  direct : value.getString? "$ref" = none
  stored : referred.at? pointer = some value
  spared : ∀ along ∈ plain.references, spares use along = true

theorem isUse_part {key : String} (h : key ∈ partKeys) {rest : List String}
    (use : isUse (key :: rest) = true) : isUse rest = true := by
  have others : ∀ key ∈ partKeys, key ∉ listKeys ∧ key ≠ "content" := by decide
  cases rest with
  | nil => rfl
  | cons step rest => simpa [isUse, others key h, h] using use

private theorem isUse_list {key : String} (h : key ∈ listKeys) {rest : List String}
    (use : isUse (key :: rest) = true) :
    ∃ step inner, rest = step :: inner ∧ isUse inner = true := by
  have others : ∀ key ∈ listKeys, key ∉ partKeys ∧ key ≠ "content" := by decide
  cases rest with
  | nil => simp [isUse, others key h] at use
  | cons step rest => exact ⟨step, rest, rfl, by simpa [isUse, others key h, h] using use⟩

private theorem isUse_content {rest : List String} (use : isUse ("content" :: rest) = true) :
    ∃ type inner, rest = type :: "schema" :: inner ∧ isUse inner = true := by
  have others : partKeys.contains "content" = false ∧ listKeys.contains "content" = false := by
    decide
  cases rest with
  | nil =>
    rw [isUse, others.1] at use
    cases use
  | cons type rest =>
    rw [isUse, others.1, others.2] at use
    simp only [Bool.false_and, Bool.false_or, BEq.rfl, Bool.true_and, Bool.and_eq_true,
      beq_iff_eq] at use
    obtain ⟨key, inner⟩ := use
    cases rest with
    | nil => cases key
    | cons first rest =>
      obtain rfl := Option.some.inj key
      exact ⟨type, rest, rfl, isUse_part (by decide) inner⟩

private theorem isUse_plain {key : String} (plain : isPlain key = true) (rest : List String) :
    ¬isUse (key :: rest) = true := by
  simp only [isPlain, Bool.and_eq_true, Bool.not_eq_true', List.contains_eq_mem,
    decide_eq_false_iff_not, bne_iff_ne] at plain
  cases rest <;> simp [isUse, plain]

private theorem spares_iff {use along : List String} : spares use along = true ↔
    ¬use <+: along ∧ ∀ rest, use = along ++ rest → isUse rest = true := by
  have isPrefix (a b : List String) : a.isPrefixOf b = true ↔ a <+: b := List.isPrefixOf_iff_prefix
  rw [spares, Bool.and_eq_true, Bool.or_eq_true, Bool.not_eq_true', Bool.not_eq_true',
    ← Bool.not_eq_true, ← Bool.not_eq_true, isPrefix, isPrefix]
  refine and_congr_right fun _ => ⟨?_, ?_⟩
  · rintro (beside | inside) rest rfl
    · exact absurd (List.prefix_append _ _) beside
    · rwa [List.drop_left] at inside
  · intro inside
    by_cases h : along <+: use
    · obtain ⟨rest, rfl⟩ := h
      rw [List.drop_left]
      exact .inr (inside rest rfl)
    · exact .inl h

namespace Referral

variable {x : Referral} {P Q : List String → Prop} {v v' : Json}

/-- A part of the plain document, and the same part or the one with the reference in it behind some
steps. -/
def Alike (x : Referral) (P : List String → Prop) (v v' : Json) : Prop :=
  v.references ⊆ x.plain.references ∧
    (v = v' ∨ ∃ rest, P rest ∧ Json.Replaced x.value (referenceTo x.pointer) rest v v')

namespace Alike

theorem refl (inside : v.references ⊆ x.plain.references) : x.Alike P v v := ⟨inside, .inl rfl⟩

theorem mono (h : x.Alike P v v') (weaker : ∀ rest, P rest → Q rest) : x.Alike Q v v' :=
  ⟨h.1, h.2.imp_right fun ⟨rest, hP, replaced⟩ => ⟨rest, weaker rest hP, replaced⟩⟩

theorem eq (h : x.Alike P v v') (empty : ∀ rest, ¬P rest) : v = v' :=
  h.2.resolve_right fun ⟨rest, hP, _⟩ => empty rest hP

theorem members? (h : x.Alike P v v') (outside : ¬P []) :
    Option.Rel (List.Forall₂ fun e e' =>
      e.1 = e'.1 ∧ x.Alike (fun rest => P (e.1 :: rest)) e.2 e'.2) v.members? v'.members? := by
  obtain ⟨inside, same⟩ := h
  have kept {members : Json.Members} (inside : (Json.object members).references ⊆ _)
      (some : List (String × Json)) (sub : some ⊆ members) : List.Forall₂
        (fun e e' => e.1 = e'.1 ∧ x.Alike (fun rest => P (e.1 :: rest)) e.2 e'.2) some some :=
    List.forall₂_same.2 fun e he =>
      ⟨rfl, refl (List.Subset.trans (Json.references_of_member (sub he)) inside)⟩
  rcases same with rfl | ⟨rest, hP, replaced⟩
  · cases v with
    | object members => exact .some (kept inside members (List.Subset.refl _))
    | _ => exact .none
  · cases replaced with
    | here => exact absurd hP outside
    | item => exact .none
    | @member key rest before after front back absent within =>
      refine .some (List.rel_append (kept inside front ?_) (.cons ⟨rfl, ?_, .inr ⟨rest, hP, within⟩⟩
        (kept inside back ?_)))
      · exact List.subset_append_left _ _
      · exact List.Subset.trans
          (Json.references_of_member (List.mem_append_right _ List.mem_cons_self)) inside
      · exact fun e he => List.mem_append_right _ (List.mem_cons_of_mem _ he)

theorem items? (h : x.Alike P v v') (outside : ¬P []) : Option.Rel
    (List.Forall₂ (x.Alike fun rest => ∃ step, P (step :: rest))) v.items? v'.items? := by
  obtain ⟨inside, same⟩ := h
  have kept {items : List Json} (inside : (Json.array items).references ⊆ _)
      (some : List Json) (sub : some ⊆ items) :
      List.Forall₂ (x.Alike fun rest => ∃ step, P (step :: rest)) some some :=
    List.forall₂_same.2 fun e he =>
      refl (List.Subset.trans (Json.references_of_item (sub he)) inside)
  rcases same with rfl | ⟨rest, hP, replaced⟩
  · cases v with
    | array items => exact .some (kept inside items (List.Subset.refl _))
    | _ => exact .none
  · cases replaced with
    | here => exact absurd hP outside
    | member => exact .none
    | @item step rest before after front back index within =>
      refine .some (List.rel_append (kept inside front ?_)
        (.cons ⟨?_, .inr ⟨rest, ⟨step, hP⟩, within⟩⟩ (kept inside back ?_)))
      · exact List.subset_append_left _ _
      · exact List.Subset.trans
          (Json.references_of_item (List.mem_append_right _ List.mem_cons_self)) inside
      · exact fun e he => List.mem_append_right _ (List.mem_cons_of_mem _ he)

theorem get? (h : x.Alike P v v') (outside : ¬P []) (key : String) :
    Option.Rel (x.Alike fun rest => P (key :: rest)) (v.get? key) (v'.get? key) :=
  rel_bind (h.members? outside) fun _ _ members =>
    rel_get? (R := fun key => x.Alike fun rest => P (key :: rest)) members key

private theorem step? (h : x.Alike P v v') (outside : ¬P []) (step : String) :
    Option.Rel (x.Alike fun rest => ∃ first, P (first :: rest)) (v.step? step) (v'.step? step) := by
  rw [Json.step?_eq_or, Json.step?_eq_or]
  refine rel_or (rel_bind (h.members? outside) fun _ _ members => ?_)
    (rel_bind (h.items? outside) fun _ _ items => ?_)
  · have found := rel_get? (R := fun key => x.Alike fun rest => P (key :: rest)) members step
    exact rel_mono found fun _ _ alike => alike.mono fun _ hP => ⟨step, hP⟩
  · exact rel_bind (rel_refl _) fun i _ same => same ▸ rel_getElem? items i

end Alike

/-- The last steps to the use, from an operation or from something that it uses. -/
def Behind (x : Referral) (rest : List String) : Prop := isUse rest = true ∧ rest <:+ x.use

/-- The last steps to the use, from an entry of a list with some key. -/
def BehindEntry (x : Referral) (key : String) (rest : List String) : Prop :=
  isUse rest = true ∧ ∃ step, key :: step :: rest <:+ x.use

/-- Something that is used, or the reference to it, or something with the reference in it. -/
def Used (x : Referral) : Json → Json → Prop := x.Alike x.Behind

/-- Something with the reference at most inside, so that both values have the same outer form. -/
def Inner (x : Referral) : Json → Json → Prop := x.Alike fun rest => rest ≠ [] ∧ x.Behind rest

theorem Behind.part {key : String} (part : key ∈ partKeys) {rest : List String}
    (h : x.Behind (key :: rest)) : x.Behind rest :=
  ⟨isUse_part part h.1, (List.suffix_cons key rest).trans h.2⟩

private theorem Behind.list {key : String} (list : key ∈ listKeys) {rest : List String}
    (h : x.Behind (key :: rest)) :
    ∃ step inner, rest = step :: inner ∧ x.BehindEntry key inner ∧ x.Behind inner := by
  obtain ⟨step, inner, rfl, use⟩ := isUse_list list h.1
  have behind : inner <:+ key :: step :: inner := List.suffix_append [key, step] inner
  exact ⟨step, inner, rfl, ⟨use, step, h.2⟩, use, behind.trans h.2⟩

theorem BehindEntry.behind {key : String} {rest : List String} (h : x.BehindEntry key rest) :
    x.Behind rest := by
  obtain ⟨use, step, entry⟩ := h
  exact ⟨use, (List.suffix_append [key, step] rest).trans entry⟩

namespace Inner

variable (h : x.Inner v v') (key : String)
include h

theorem used : x.Used v v' := h.mono fun _ hP => hP.2

theorem get?_plain (plain : isPlain key = true) : v.get? key = v'.get? key :=
  eq_of_rel (h.get? (fun outside => outside.1 rfl) key) fun _ _ alike =>
    alike.eq fun rest hP => isUse_plain plain rest hP.2.1

theorem getString?_plain (plain : isPlain key = true) : v.getString? key = v'.getString? key := by
  rw [Json.getString?, Json.getString?, h.get?_plain key plain]

theorem get?_part (part : key ∈ partKeys) : Option.Rel x.Used (v.get? key) (v'.get? key) :=
  rel_mono (h.get? (fun outside => outside.1 rfl) key) fun _ _ alike =>
    alike.mono fun _ hP => hP.2.part part

theorem get?_list (list : key ∈ listKeys) :
    Option.Rel (x.Alike fun rest => ∃ step inner, rest = step :: inner ∧
      x.BehindEntry key inner ∧ x.Behind inner) (v.get? key) (v'.get? key) :=
  rel_mono (h.get? (fun outside => outside.1 rfl) key) fun _ _ alike =>
    alike.mono fun _ hP => hP.2.list list

theorem items?_list (list : key ∈ listKeys) :
    Option.Rel (List.Forall₂ (x.Alike (x.BehindEntry key))) ((v.get? key).bind Json.items?)
      ((v'.get? key).bind Json.items?) :=
  rel_bind (h.get?_list key list) fun _ _ alike =>
    rel_mono (alike.items? (by simp)) fun _ _ items => items.imp fun _ _ item =>
      item.mono fun _ ⟨_, _, _, same, entry, _⟩ => (List.cons.inj same).2 ▸ entry

theorem members?_list (list : key ∈ listKeys) :
    List.Forall₂ (fun e e' => e.1 = e'.1 ∧ x.Used e.2 e'.2) (v.getMembers key)
      (v'.getMembers key) :=
  rel_getD (rel_bind (h.get?_list key list) fun _ _ alike =>
    rel_mono (alike.members? (by simp)) fun _ _ members => members.imp fun _ _ member =>
      ⟨member.1, member.2.mono fun _ ⟨_, _, same, _, use⟩ => (List.cons.inj same).2 ▸ use⟩)

private theorem follow?_list (list : key ∈ listKeys) (step : String) :
    Option.Rel x.Used (v.follow? [key, step]) (v'.follow? [key, step]) := by
  have name : Json.itemIndex? key = none := by
    have names : ∀ key ∈ listKeys, Json.itemIndex? key = none := by decide
    exact names key list
  rw [Json.follow?_pair name, Json.follow?_pair name]
  refine rel_bind (h.get?_list key list) fun _ _ alike => ?_
  refine rel_mono (alike.step? (by simp) step) fun _ _ inner => inner.mono ?_
  rintro rest ⟨first, _, _, same, -, use⟩
  exact (List.cons.inj same).2 ▸ use

theorem content : Option.Rel (List.Forall₂ fun e e' => e.1 = e'.1 ∧ x.Inner e.2 e'.2)
    ((v.get? "content").bind Json.members?) ((v'.get? "content").bind Json.members?) := by
  have outside : ¬(["content"] ≠ [] ∧ x.Behind ["content"]) := fun use =>
    absurd use.2.1 (by decide)
  refine rel_bind (h.get? (fun outside => outside.1 rfl) "content") fun _ _ alike => ?_
  refine rel_mono (alike.members? outside) fun _ _ members => members.imp fun _ _ member => ?_
  refine ⟨member.1, member.2.mono fun rest hP => ?_⟩
  obtain ⟨type, inner, same, use⟩ := isUse_content hP.2.1
  obtain ⟨rfl, rfl⟩ := List.cons.inj same
  exact ⟨List.cons_ne_nil _ _, by cases inner <;> simp_all [isUse, partKeys],
    (List.suffix_append ["content", _] _).trans hP.2.2⟩

end Inner

theorem target?_of_direct (document : Json) {value : Json}
    (direct : value.getString? "$ref" = none) : target? document value = none := by
  unfold target?
  rw [direct]
  rfl

private theorem resolve_of_direct {document value : Json}
    (direct : value.getString? "$ref" = none) :
    resolve document value = value := by
  unfold resolve maxDepth resolveAtMost
  rw [target?_of_direct document direct]

private theorem target?_referenceTo (document : Json) (pointer : String) :
    target? document (referenceTo pointer) = document.at? pointer := by
  have read : (referenceTo pointer).getString? "$ref" = some ("#" ++ pointer) := by
    simp [referenceTo, Json.getString?, Json.get?, Json.members?, Table.get?_cons, Json.string?]
  have behind : Text.after? ['#'] ("#" ++ pointer).toList = some pointer.toList := by
    rw [String.toList_append]
    exact Text.after?_eq_some_iff.2 rfl
  unfold target?
  rw [read, Option.bind_eq_bind, Option.bind_some, behind, Option.bind_eq_bind, Option.bind_some,
    String.ofList_toList]

/-- The last steps to the use, from something around it that a reference leads to. -/
def Led (x : Referral) (rest : List String) : Prop :=
  rest ≠ [] ∧ isUse rest = true ∧ ∃ along ∈ x.plain.references, x.use = along ++ rest

theorem Led.behind {rest : List String} (h : x.Led rest) : x.Behind rest := by
  obtain ⟨-, use, along, -, split⟩ := h
  exact ⟨use, along, split.symm⟩

/-- References that stand inside of a use lead past it, or to something that has it inside. -/
theorem target?_inner (h : x.Inner v v') :
    Option.Rel (x.Alike x.Led) (target? x.plain v) (target? x.referred v') := by
  have same : Json.referenceSteps? v = Json.referenceSteps? v' := by
    unfold Json.referenceSteps?
    rw [h.getString?_plain "$ref" (by decide)]
  rw [target?_eq, target?_eq, ← same]
  cases leads : Json.referenceSteps? v with
  | none => exact .none
  | some along =>
    rw [Option.bind_some, Option.bind_some]
    have found := h.1 (Json.references_of_self leads)
    obtain ⟨past, inside⟩ := spares_iff.1 (x.spared along found)
    -- Both documents have the same there, or the use is inside of it, or it lies in the use.
    rcases x.replaced.follow? along with equal | ⟨rest, y, y', split, there, there', replaced⟩ | into
    · rw [← equal]
      cases there : x.plain.follow? along with
      | none => exact .none
      | some y => exact .some (.refl (Json.references_of_follow? there))
    · rw [there, there']
      refine .some ⟨Json.references_of_follow? there, .inr ⟨rest, ⟨?_, inside rest split, along,
        found, split⟩, replaced⟩⟩
      rintro rfl
      rw [split, List.append_nil] at past
      exact past (List.prefix_refl _)
    · exact absurd into past

private theorem resolveAtMost_alike (n : Nat) (inner : ∀ rest, P rest → rest ≠ [] ∧ x.Behind rest)
    (led : ∀ rest, x.Led rest → P rest) (h : x.Alike P v v') :
    x.Alike P (resolveAtMost x.plain n v) (resolveAtMost x.referred n v') := by
  induction n generalizing v v' with
  | zero => exact h
  | succ n ih =>
    have target := target?_inner (h.mono inner)
    rw [resolveAtMost, resolveAtMost]
    generalize target? x.plain v = a, target? x.referred v' = b at target
    cases target with
    | none => exact h
    | some next => exact ih (next.mono led)

/-- Resolving takes the reference away, wherever the use is. -/
theorem resolve_alike (uses : ∀ rest, P rest → x.Behind rest) (h : x.Alike P v v') :
    x.Alike (fun rest => rest ≠ [] ∧ P rest ∨ x.Led rest) (resolve x.plain v)
      (resolve x.referred v') := by
  have inner (rest : List String) (hP : rest ≠ [] ∧ P rest ∨ x.Led rest) :
      rest ≠ [] ∧ x.Behind rest :=
    hP.elim (fun hP => ⟨hP.1, uses rest hP.2⟩) fun led => ⟨led.1, led.behind⟩
  have resolved {v v' : Json} (h : x.Alike (fun rest => rest ≠ [] ∧ P rest ∨ x.Led rest) v v') :=
    resolveAtMost_alike maxDepth inner (fun _ => .inr) h
  obtain ⟨inside, rfl | ⟨rest, hP, replaced⟩⟩ := h
  · exact resolved (.refl inside)
  · by_cases here : rest = []
    · -- The reference itself takes one step more, and then both are at the value.
      subst here
      cases replaced
      have there : resolve x.referred (referenceTo x.pointer) =
          resolveAtMost x.referred 4 x.value := by
        rw [resolve, maxDepth, resolveAtMost, target?_referenceTo, x.stored]
      have direct := target?_of_direct x.referred x.direct
      rw [resolve_of_direct x.direct, there, resolveAtMost, direct]
      exact .refl inside
    · exact resolved ⟨inside, .inr ⟨rest, .inl ⟨here, hP⟩, replaced⟩⟩

theorem resolve_used (h : x.Used v v') : x.Inner (resolve x.plain v) (resolve x.referred v') :=
  (resolve_alike (fun _ => id) h).mono fun _ hP =>
    hP.elim id fun led => ⟨led.1, led.behind⟩

private theorem declaredSample?_eq (h : x.Inner v v') : declaredSample? v = declaredSample? v' := by
  have name : Json.itemIndex? "enum" = none := by decide
  unfold declaredSample?
  rw [Json.follow?_pair name, Json.follow?_pair name, h.get?_plain "example" (by decide),
    h.get?_plain "default" (by decide), h.get?_plain "enum" (by decide)]

private theorem sampleWithin_eq (levels : Nat) (h : x.Used v v') :
    sampleWithin x.plain levels v = sampleWithin x.referred levels v' := by
  induction levels generalizing v v' with
  | zero => rfl
  | succ levels ih =>
    have inner := resolve_used h
    rw [sampleWithin, sampleWithin]
    generalize resolve x.plain v = w, resolve x.referred v' = w' at inner
    have parts := inner.items?_list "allOf" (by decide)
    have alternative : Option.Rel x.Used (alternative? w) (alternative? w') :=
      rel_or (inner.follow?_list "oneOf" (by decide) "0")
        (inner.follow?_list "anyOf" (by decide) "0")
    have type : schemaType w = schemaType w' := by
      have properties := inner.get?_list "properties" (by decide)
      rw [schemaType, schemaType, inner.getString?_plain "type" (by decide),
        isSome_eq_of_rel properties]
    dsimp only
    rw [← declaredSample?_eq inner, ← type]
    -- the cases are the sources of a sample, in the order in which they are asked
    cases declaredSample? w with
    | some value => rfl
    | none =>
      dsimp only
      generalize (w.get? "allOf").bind Json.items? = a, (w'.get? "allOf").bind Json.items? = b
        at parts
      cases parts with
      | some parts =>
        exact congrArg mergeObjects (map_eq_of_rel parts fun _ _ part =>
          ih (part.mono fun _ => BehindEntry.behind))
      | none =>
        dsimp only
        generalize alternative? w = a, alternative? w' = b at alternative
        cases alternative with
        | some first => exact ih first
        | none =>
          dsimp only
          split
          · have properties := inner.members?_list "properties" (by decide)
            exact congrArg Json.object (map_eq_of_rel properties fun _ _ property =>
              Prod.ext property.1 (ih property.2))
          · have items := inner.get?_part "items" (by decide)
            generalize w.get? "items" = a, w'.get? "items" = b at items
            cases items with
            | none => rfl
            | some items => exact congrArg (fun item => Json.array [item]) (ih items)
          · rw [inner.getString?_plain "format" (by decide)]

theorem sample_eq (h : x.Used v v') : sample x.plain v = sample x.referred v' :=
  sampleWithin_eq _ h

theorem placeholder_eq (h : x.Inner v v') : placeholder v = placeholder v' := by
  unfold placeholder
  rw [h.get?_plain "format" (by decide), h.get?_plain "type" (by decide)]

end Referral

end ApiCollection.Conversion
