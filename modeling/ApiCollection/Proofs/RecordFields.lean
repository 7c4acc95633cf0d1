import ApiCollection.Proofs.DeclaredFields
import ApiCollection.Proofs.RecordComponents
import Mathlib.Data.List.Nodup

/-!
# Fields of a record

The components of a record are cut out up to the first closing parenthesis, and no field declaration
is found in a record. As long as no directive has arguments, each component adds its name with the
type that is read.
-/

namespace ApiCollection

open Text Java

structure Record where
  name : List Char
  components : List Component

namespace Record

def inside (r : Record) : List Char := joinWith [','] (r.components.map Component.text)

/-- The text behind the opening parenthesis. -/
def behind (r : Record) : List Char := r.inside ++ ')' :: " \x7b\x7d".toList

def text (r : Record) : List Char := "record".toList ++ ' ' :: (r.name ++ '(' :: r.behind)

structure WellFormed (r : Record) : Prop where
  name : r.name.all isWordChar = true
  named : r.name ≠ []
  components : ∀ c ∈ r.components, c.WellFormed
  distinct : (r.components.map Component.name).Nodup

end Record

namespace Record

theorem text_eq (r : Record) : r.text = "record".toList ++ ' ' :: (r.name ++ '(' :: r.behind) := rfl

variable {r : Record} (wf : r.WellFormed)

def cut (r : Record) : List Char := r.behind.takeWhile (· != ')')

include wf

/-- The name behind the keyword is read up to the parenthesis. -/
theorem keyword?_text {keywords : List String} (words : AreWords keywords)
    (member : "record" ∈ keywords) :
    keyword? keywords r.text = some ("record", r.name ++ '(' :: r.behind) ∧
      word? (r.name ++ '(' :: r.behind) = some (r.name, '(' :: r.behind) := by
  have paren : isWordChar '(' = false := by decide
  have begins : (r.name ++ '(' :: r.behind).head?.any isBlank = false := by
    obtain ⟨c, name, cons⟩ := List.exists_cons_of_ne_nil wf.named
    have letter := wf.name
    rw [cons, List.all_cons, Bool.and_eq_true] at letter
    rw [cons, List.cons_append, List.head?_cons, Option.any_some]
    exact isBlank_of_isWordChar letter.1
  constructor
  · exact @keyword?_append _ words _ member [' '] _ rfl (List.cons_ne_nil _ _) begins
  · exact run?_append wf.name wf.named (by simpa using paren)

private theorem declaredName?_text : Dto.declaredName? r.text = some r.name := by
  obtain ⟨keyword, word⟩ := keyword?_text wf areWords_modelKeywords (by decide)
  simp only [Dto.declaredName?, keyword, bind, Option.bind_some, word, pure]

/-- The components end at the first closing parenthesis. -/
theorem recordComponents?_text : Dto.recordComponents? r.text = some r.cut := by
  obtain ⟨keyword, word⟩ := @keyword?_text r wf ["record"] (by decide) (by decide)
  have solid : isBlank '(' = false := by decide
  have start : trimStart ('(' :: r.behind) = '(' :: r.behind :=
    trimStart_of_head? (by simpa using solid)
  have parameters : Dto.skipParameters? ('(' :: r.behind) = some ('(' :: r.behind) := rfl
  have opens : afterChar? '(' ('(' :: r.behind) = some r.behind := rfl
  have paren : ')' ∈ r.behind := by simp [behind]
  obtain ⟨rest, dropped⟩ := exists_dropWhile_ne paren
  have closes : afterChar? ')' (r.behind.dropWhile (· != ')')) = some rest := by
    rw [dropped]
    rfl
  simp only [Dto.recordComponents?, keyword, word, start, parameters, opens, closes, bind,
    Option.bind_some, pure, cut]

theorem ofSource?_text (path : Option String) : Dto.ofSource? r.text path = some {
    name := String.ofList r.name
    path := path
    fields := ((sweep (fun _ cs => Dto.declared? cs) r.text).filter fun d => !d.static).foldl
      (fun fields d => Dto.addField fields d.name d.type)
      ((splitTopLevel ',' r.cut).foldl Dto.addComponent []) } := by
  have name : find? (fun _ cs => Dto.declaredName? cs) r.text = some r.name :=
    findFrom_of_read (declaredName?_text wf)
  have components : find? (fun _ cs => Dto.recordComponents? cs) r.text = some r.cut :=
    findFrom_of_read (recordComponents?_text wf)
  rw [Dto.ofSource?, name, components]
  rfl

end Record

theorem mem_foldl {α β : Type} {add : List β → α → List β} {P : α → β → Prop}
    (step : ∀ bs a b, b ∈ add bs a → b ∈ bs ∨ P a b) {as : List α} {bs : List β} {b : β}
    (h : b ∈ as.foldl add bs) : b ∈ bs ∨ ∃ a ∈ as, P a b := by
  induction as generalizing bs with
  | nil => exact Or.inl h
  | cons a as ih =>
    obtain earlier | ⟨a', member, here⟩ := ih h
    · exact (step bs a b earlier).imp_right fun here => ⟨a, List.mem_cons_self, here⟩
    · exact Or.inr ⟨a', List.mem_cons_of_mem a member, here⟩

theorem mem_addField {fields : List Field} {name type : List Char} {f : Field}
    (h : f ∈ Dto.addField fields name type) :
    f ∈ fields ∨ f = ⟨String.ofList name, String.ofList (trim type)⟩ := by
  rw [Dto.addField] at h
  split at h
  · exact Or.inl h
  split at h
  · exact Or.inl h
  · simpa using h

/-- The name of a field from a piece of the components is a word of it. -/
theorem mem_addComponent {fields : List Field} {component : List Char} {f : Field}
    (h : f ∈ Dto.addComponent fields component) :
    f ∈ fields ∨ ∃ name ∈ words (Dto.blankDirectives component), f.name = String.ofList name := by
  rw [Dto.addComponent] at h
  split at h
  · rename_i name last before found
    refine (mem_addField h).imp_right ?_
    rintro rfl
    refine ⟨name, ?_, rfl⟩
    rw [← List.mem_reverse, found]
    exact List.mem_cons_self
  · exact Or.inl h

private theorem mem_joinWith {sep : List Char} {texts : List (List Char)} {c : Char}
    (h : c ∈ joinWith sep texts) : c ∈ sep ∨ ∃ t ∈ texts, c ∈ t := by
  induction texts with
  | nil => cases h
  | cons t texts ih =>
    cases texts with
    | nil =>
      rw [joinWith_singleton] at h
      exact Or.inr ⟨t, List.mem_cons_self, h⟩
    | cons u texts =>
      rw [joinWith_cons_cons, List.mem_append, List.mem_append] at h
      obtain (here | between) | later := h
      · exact Or.inr ⟨t, List.mem_cons_self, here⟩
      · exact Or.inl between
      · exact (ih later).imp_right fun ⟨v, member, inner⟩ => ⟨v, List.mem_cons_of_mem t member, inner⟩

private theorem addField_kept {c : Component} (wf : c.WellFormed) (same : c.readType = c.type.text)
    {fields : List Field} (new : ∀ f ∈ fields, f.name ≠ String.ofList c.name) :
    Dto.addField fields c.name c.readType = fields ++ [c.field] := by
  have absent : fields.any (fun f => f.name == String.ofList c.name) = false := by
    rw [List.any_eq_false]
    intro f member
    rw [beq_iff_eq]
    exact new f member
  rw [Dto.addField, same, if_neg (by simpa using wf.kept), absent, if_neg Bool.false_ne_true, ← same,
    Component.trim_readType wf, same]
  rfl

/-- Components with different names are added one after the other. -/
theorem foldl_addField {cs : List Component} (wf : ∀ c ∈ cs, c.WellFormed)
    (same : ∀ c ∈ cs, c.readType = c.type.text) (distinct : (cs.map Component.name).Nodup)
    {fields : List Field} (new : ∀ c ∈ cs, ∀ f ∈ fields, f.name ≠ String.ofList c.name) :
    cs.foldl (fun fields c => Dto.addField fields c.name c.readType) fields =
      fields ++ cs.map Component.field := by
  induction cs generalizing fields with
  | nil => simp
  | cons c cs ih =>
    rw [List.forall_mem_cons] at wf same new
    rw [List.map_cons, List.nodup_cons] at distinct
    rw [List.foldl_cons, addField_kept wf.1 same.1 new.1, ih wf.2 same.2 distinct.2, List.append_assoc]
    · rfl
    intro d member f present
    obtain earlier | here := List.mem_append.1 present
    · exact new.2 d member f earlier
    · rw [List.mem_singleton.1 here]
      intro equal
      apply distinct.1
      rw [String.ofList_inj.1 equal]
      exact List.mem_map_of_mem member

namespace Record

variable {r : Record} (wf : r.WellFormed)
  (bare : ∀ c ∈ r.components, ∀ w ∈ c.directives, w.arguments = none)

include wf bare

theorem characters_inside : ∀ d ∈ r.inside, (isLeadChar d || isArgumentChar d) = true := by
  intro d member
  obtain comma | ⟨text, component, inner⟩ := mem_joinWith member
  · obtain rfl := List.mem_singleton.1 comma
    decide
  · obtain ⟨c, hc, rfl⟩ := List.mem_map.1 component
    exact List.all_eq_true.1 (Component.characters_text (wf.components c hc) (bare c hc)) d inner

private theorem cut_of_bare : r.cut = r.inside := by
  have open' : ∀ d ∈ r.inside, (d != ')') = true := by
    intro d member
    rw [bne_iff_ne]
    rintro rfl
    exact absurd (characters_inside wf bare _ member) (by decide)
  rw [cut, behind, takeWhile_stop (by decide)]
  exact List.takeWhile_eq_self_iff.2 open'

/-- No field is declared in a record whose directives have no arguments. -/
theorem sweep_of_bare : sweep (fun _ cs => Dto.declared? cs) r.text = [] := by
  have ends : ∀ c ∈ [';', '='], c ∉ r.text := by
    intro c hc member
    have other : [';', '='].all (fun c => !"record".toList.contains c && !" ()".toList.contains c &&
        !" \x7b\x7d".toList.contains c && !isWordChar c && !(isLeadChar c || isArgumentChar c)) =
        true := by decide
    have here := List.all_eq_true.1 other c hc
    simp only [Bool.and_eq_true, Bool.not_eq_true', List.contains_eq_mem, decide_eq_false_iff_not] at here
    obtain ⟨⟨⟨⟨keyword, marks⟩, closing⟩, word⟩, inner⟩ := here
    obtain ⟨space, opens, closes⟩ : c ≠ ' ' ∧ c ≠ '(' ∧ c ≠ ')' := by simpa using marks
    obtain front | member := List.mem_append.1 member
    · exact keyword front
    obtain here | member := List.mem_cons.1 member
    · exact space here
    obtain name | member := List.mem_append.1 member
    · exact not_mem_of_all wf.name word name
    obtain here | member := List.mem_cons.1 member
    · exact opens here
    obtain inside | member := List.mem_append.1 member
    · rw [characters_inside wf bare c inside] at inner
      cases inner
    obtain here | member := List.mem_cons.1 member
    · exact closes here
    · exact closing member
  apply List.eq_nil_iff_forall_not_mem.2
  intro d member
  obtain ⟨s, rest, suffix, behind, c, word, trimmed, which⟩ := Dto.ended_of_mem_sweep member
  apply ends c (by simpa using which)
  apply suffix.mem
  apply (suffix_word? word).mem
  apply (suffix_trimStart behind).mem
  rw [trimmed]
  exact List.mem_cons_self

/-- When no directive has arguments, each component adds its name with the type that is read. -/
theorem ofSource?_of_bare (path : Option String) : Dto.ofSource? r.text path = some {
    name := String.ofList r.name
    path := path
    fields := r.components.foldl (fun fields c => Dto.addField fields c.name c.readType) [] } := by
  have pieces : splitTopLevel ',' r.cut = r.components.map Component.text := by
    rw [cut_of_bare wf bare, inside]
    apply splitTopLevel_joinWith rfl
    · rw [List.forall_mem_map]
      exact fun c hc => Component.flat_text (wf.components c hc) (bare c hc)
    · rw [List.forall_mem_map]
      exact fun c hc => Component.allBlank_text (wf.components c hc)
  have added : (r.components.map Component.text).foldl Dto.addComponent [] =
      r.components.foldl (fun fields c => Dto.addField fields c.name c.readType) [] := by
    rw [List.foldl_map]
    apply List.foldl_ext
    exact fun fields c hc => Component.addComponent_text (wf.components c hc) (bare c hc) fields
  rw [ofSource?_text wf, sweep_of_bare wf bare, pieces, added]
  rfl

omit bare in
/-- Without arguments the components of a record are its fields exactly when no directive has a
qualifier. -/
theorem fields_of_bare_iff :
    r.components.foldl (fun fields c => Dto.addField fields c.name c.readType) []
    = r.components.map Component.field ↔ ∀ c ∈ r.components, ∀ w ∈ c.directives, '.' ∉ w.qualified := by
  have each (c : Component) (hc : c ∈ r.components) : c.readType = c.type.text ↔
      ∀ w ∈ c.directives, '.' ∉ w.qualified := by
    rw [Component.readType_eq_iff (wf.components c hc),
      leftovers_eq_nil_iff (wf.components c hc).leading.proper]
  constructor
  · intro right c hc
    rw [← each c hc]
    have member : c.field ∈ r.components.map Component.field := List.mem_map_of_mem hc
    rw [← right] at member
    have step (fields : List Field) (d : Component) (f : Field)
        (added : f ∈ Dto.addField fields d.name d.readType) :
        f ∈ fields ∨ f = ⟨String.ofList d.name, String.ofList (trim d.readType)⟩ := mem_addField added
    obtain earlier | ⟨d, hd, same⟩ := mem_foldl step member
    · cases earlier
    · obtain ⟨name, type⟩ := Field.mk.inj same
      obtain rfl := List.inj_on_of_nodup_map wf.distinct hc hd (String.ofList_inj.1 name)
      rw [String.ofList_inj, Component.trim_readType (wf.components c hc)] at type
      exact type.symm
  · intro unqualified
    rw [foldl_addField wf.components (fun c hc => (each c hc).2 (unqualified c hc)) wf.distinct,
      List.nil_append]
    intro c hc f member
    cases member

end Record

end ApiCollection
