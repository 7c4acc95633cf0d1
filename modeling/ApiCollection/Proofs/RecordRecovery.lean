import ApiCollection.Proofs.CollectedDirectives
import ApiCollection.Proofs.RecordFields

/-!
# Recovered components

The first closing parenthesis of a record may stand in the arguments of a directive, and directives
are blanked without their qualifiers. The fields of a record are its components, whatever these are,
exactly when its directives have neither arguments nor qualifiers.
-/

namespace ApiCollection

open Text Java

private theorem mem_joinWith_of_mem (sep : List Char) {texts : List (List Char)} {t : List Char}
    {c : Char}
    (h : t ∈ texts) (inner : c ∈ t) : c ∈ joinWith sep texts := by
  induction texts with
  | nil => cases h
  | cons u texts ih =>
    cases texts with
    | nil =>
      rw [joinWith_singleton, ← List.mem_singleton.1 h]
      exact inner
    | cons v texts =>
      rw [joinWith_cons_cons, List.mem_append, List.mem_append]
      obtain rfl | later := List.mem_cons.1 h
      · exact Or.inl (Or.inl inner)
      · exact Or.inr (ih later)

theorem joinWith_concat_append (sep : List Char) (texts : List (List Char)) (xs ys : List Char) :
    joinWith sep (texts ++ [xs ++ ys]) = joinWith sep (texts ++ [xs]) ++ ys := by
  by_cases empty : texts = []
  · simp [empty]
  · rw [joinWith_append sep empty (List.cons_ne_nil _ _), joinWith_append sep empty (List.cons_ne_nil _ _),
      joinWith_singleton, joinWith_singleton, List.append_assoc _ xs]

private theorem length_blankDirectives_le (cs : List Char) :
    (Dto.blankDirectives cs).length ≤ cs.length := by
  fun_induction Dto.blankDirectives cs with
  | case1 => exact Nat.le_refl _
  | case2 c tail none' ih => exact Nat.succ_le_succ ih
  | case3 c tail rest found shorter ih => exact Nat.succ_le_succ (ih.trans shorter)
  | case4 c tail rest found longer ih => exact Nat.succ_le_succ ih

namespace Record

/-- The name of a field that is read is no longer than the components that are cut out, or something
ends behind it. -/
theorem name_of_mem_fields {r : Record} {f : Field}
    (h : f ∈ ((sweep (fun _ cs => Dto.declared? cs) r.text).filter fun d => !d.static).foldl
      (fun fields d => Dto.addField fields d.name d.type)
      ((splitTopLevel ',' r.cut).foldl Dto.addComponent [])) :
    f.name.toList.length ≤ r.cut.length ∨
      ∃ s rest, s <:+ r.text ∧ Dto.Ended f.name.toList s rest := by
  have step (fields : List Field) (d : Dto.Declared) (f : Field)
      (added : f ∈ Dto.addField fields d.name d.type) :
      f ∈ fields ∨ f.name = String.ofList d.name :=
    (mem_addField added).imp_right fun same => by rw [same]
  have step' (fields : List Field) (piece : List Char) (f : Field)
      (added : f ∈ Dto.addComponent fields piece) : f ∈ fields ∨
        ∃ word ∈ words (Dto.blankDirectives piece), f.name = String.ofList word :=
    mem_addComponent added
  obtain component | ⟨d, declared, name⟩ := mem_foldl step h
  · obtain earlier | ⟨piece, member, word, inner, name⟩ := mem_foldl step' component
    · cases earlier
    · rw [name, String.toList_ofList]
      exact Or.inl (((length_le_of_mem_words inner).trans (length_blankDirectives_le piece)).trans
        (length_le_of_mem_splitTopLevel member))
  · obtain ⟨s, rest, suffix, ended⟩ := Dto.ended_of_mem_sweep (List.mem_of_mem_filter declared)
    rw [name, String.toList_ofList]
    exact Or.inr ⟨s, rest, suffix, ended⟩

end Record

/-- At the end of a record no field is declared whose name is longer than what stands before it. -/
theorem not_ended {front : List Char} {n : Nat} (long : front.length + 3 < n) {s rest : List Char}
    (suffix : s <:+ front ++ (List.replicate n 'n' ++ ')' :: " \x7b\x7d".toList)) :
    ¬Dto.Ended (List.replicate n 'n') s rest := by
  have closing : " \x7b\x7d".toList.length = 3 := by decide
  rintro ⟨behind, c, word, trimmed, which⟩
  obtain ⟨pre, split⟩ := suffix
  obtain ⟨rfl, ends⟩ : s = List.replicate n 'n' ++ behind ∧ behind.head?.any isWordChar = false := by
    rw [word?, run?] at word
    split at word
    · obtain ⟨run, rfl⟩ := Prod.mk.inj (Option.some.inj word)
      exact ⟨by rw [← run, List.takeWhile_append_dropWhile], head?_any_dropWhile isWordChar s⟩
    · cases word
  have whole := congrArg List.length split
  simp only [List.length_append, List.length_replicate, List.length_cons, closing] at whole
  rcases Nat.lt_trichotomy pre.length front.length with less | equal | more
  · -- the name would go on
    have here : (front ++ (List.replicate n 'n' ++ ')' :: " \x7b\x7d".toList))[pre.length + n]? =
        some 'n' := by
      rw [List.getElem?_append_right (by omega), List.getElem?_append_left (by simp; omega),
        List.getElem?_replicate, if_pos (by omega)]
    rw [← split, List.getElem?_append_right (by omega), List.getElem?_append_right (by simp)] at here
    have head : behind.head? = some 'n' := by
      rw [← here, List.head?_eq_getElem?]
      simp
    rw [head] at ends
    exact absurd ends (by decide)
  · have tail := List.append_cancel_left (List.append_inj_right split equal)
    rw [tail] at trimmed
    obtain rfl : ')' = c := (List.cons_eq_cons.1 trimmed).1
    exact absurd which (by decide)
  · -- the closing parenthesis would be part of the name
    have here : (front ++ (List.replicate n 'n' ++ ')' :: " \x7b\x7d".toList))[front.length + n]? =
        some ')' := by
      rw [List.getElem?_append_right (by omega), List.getElem?_append_right (by simp)]
      simp
    rw [← split, List.getElem?_append_right (by omega), List.getElem?_append_left (by simp; omega),
      List.getElem?_replicate, if_pos (by omega)] at here
    cases here

def probe (n : Nat) (ws : List Written) : Component :=
  ⟨[], ws, ⟨['T'], none, 0⟩, [' '], List.replicate n 'n', []⟩

def probes : List (List Written) → List Component
  | [] => []
  | ws :: dss => probe (dss.length + 1) ws :: probes dss

private theorem base_ofChars (cs : List Char) : (TypeExpr.ofChars cs).base = TypeExpr.baseName
    (TypeExpr.splitArguments (TypeExpr.splitSuffixes (TypeExpr.dropWildcard (trim cs))).2).1 := by
  rw [TypeExpr.ofChars]
  split <;> dsimp only

private theorem wellFormed_probe {n : Nat} (positive : 0 < n) {ws : List Written}
    (leading : Leading ws) :
    (probe n ws).WellFormed where
  front := rfl
  leading := leading
  type := (by decide : IsFieldType ⟨['T'], none, 0⟩)
  gap := rfl
  apart := by simp [probe]
  name := by
    have letter : isWordChar 'n' = true := by decide
    simp [probe, letter]
  named := by
    simp [probe]
    omega
  trail := rfl
  kept := by
    have other : Dto.deniedNames.all (fun name => name.toList.any (· != 'n')) = true := by decide
    constructor
    · rw [List.contains_iff_mem]
      intro member
      obtain ⟨c, inner, ne⟩ := List.any_eq_true.1 (List.all_eq_true.1 other _ member)
      rw [String.toList_ofList] at inner
      rw [List.eq_of_mem_replicate inner] at ne
      exact absurd ne (by decide)
    · have type : (probe n ws).type.text = ['T'] := rfl
      rw [type, base_ofChars]
      decide +kernel

theorem directives_probes (dss : List (List Written)) :
    (probes dss).map Component.directives = dss := by
  induction dss with
  | nil => rfl
  | cons ws dss ih => rw [probes, List.map_cons, ih]; rfl

theorem exists_of_mem_probes {dss : List (List Written)} {c : Component} (h : c ∈ probes dss) :
    ∃ n ws, 0 < n ∧ n ≤ dss.length ∧ ws ∈ dss ∧ c = probe n ws := by
  induction dss with
  | nil => cases h
  | cons ws dss ih =>
    obtain rfl | later := List.mem_cons.1 h
    · exact ⟨_, ws, Nat.succ_pos _, Nat.le_refl _, List.mem_cons_self, rfl⟩
    · obtain ⟨n, ws', positive, small, member, same⟩ := ih later
      exact ⟨n, ws', positive, Nat.le_succ_of_le small, List.mem_cons_of_mem ws member, same⟩

/-- A name that is longer than the number of probes is none of theirs. -/
theorem name_not_mem_probes {dss : List (List Written)} {n : Nat} (long : dss.length < n) :
    List.replicate n 'n' ∉ (probes dss).map Component.name := by
  intro member
  obtain ⟨c, present, same⟩ := List.mem_map.1 member
  obtain ⟨k, ws, -, small, -, rfl⟩ := exists_of_mem_probes present
  have length := congrArg List.length same
  simp only [probe, List.length_replicate] at length
  omega

private theorem nodup_probes (dss : List (List Written)) :
    ((probes dss).map Component.name).Nodup := by
  induction dss with
  | nil => exact List.nodup_nil
  | cons ws dss ih =>
    rw [probes, List.map_cons, List.nodup_cons]
    exact ⟨name_not_mem_probes (Nat.lt_succ_self _), ih⟩

def probeRecord (dss : List (List Written)) (last : List Written) (n : Nat) : Record :=
  ⟨['R'], probes dss ++ [probe n last]⟩

section ProbeRecord

variable {dss : List (List Written)} {last : List Written} {n : Nat}

private theorem directives_probeRecord :
    (probeRecord dss last n).components.map Component.directives = dss ++ [last] := by
  rw [probeRecord, List.map_append, directives_probes]
  rfl

private theorem wellFormed_probeRecord (leading : ∀ ws ∈ dss ++ [last], Leading ws)
    (long : dss.length < n) :
    (probeRecord dss last n).WellFormed where
  name := (by decide : ['R'].all isWordChar = true)
  named := List.cons_ne_nil _ _
  components := by
    rw [probeRecord, List.forall_mem_append, List.forall_mem_singleton]
    constructor
    · intro c member
      obtain ⟨k, ws, positive, -, present, rfl⟩ := exists_of_mem_probes member
      exact wellFormed_probe positive (leading ws (List.mem_append_left _ present))
    · exact wellFormed_probe (by omega) (leading last (by simp))
  distinct := by
    rw [probeRecord, List.map_append, List.nodup_append']
    refine ⟨nodup_probes dss, by simp, ?_⟩
    rw [List.map_singleton, List.disjoint_singleton]
    exact name_not_mem_probes long

def probeFront (dss : List (List Written)) (last : List Written) : List Char :=
  joinWith [','] ((probes dss).map Component.text ++ [leadText last ++ ['T', ' ']])

private theorem behind_probeRecord : (probeRecord dss last n).behind =
    probeFront dss last ++ (List.replicate n 'n' ++ ')' :: " \x7b\x7d".toList) := by
  have text : (probe n last).text = (leadText last ++ ['T', ' ']) ++ List.replicate n 'n' := by
    simp [Component.text, probe, ReturnType.text]
  rw [Record.behind, Record.inside, probeRecord, List.map_append, List.map_singleton, text,
    joinWith_concat_append, List.append_assoc]
  rfl

private theorem paren_mem_probeFront {ws : List Written} (member : ws ∈ dss ++ [last])
    (paren : ')' ∈ leadText ws) : ')' ∈ probeFront dss last := by
  obtain earlier | here := List.mem_append.1 member
  · rw [← directives_probes dss] at earlier
    obtain ⟨c, present, rfl⟩ := List.mem_map.1 earlier
    apply mem_joinWith_of_mem _ (List.mem_append_left _ (List.mem_map_of_mem present))
    simp [Component.text, paren]
  · obtain rfl := List.mem_singleton.1 here
    apply mem_joinWith_of_mem _ (List.mem_append_right _ (List.mem_singleton_self _))
    simp [paren]

/-- When a directive has arguments, there is no field with the last name. -/
theorem not_mem_fields_probeRecord {ws : List Written} (member : ws ∈ dss ++ [last])
    (paren : ')' ∈ leadText ws) (long : (probeFront dss last).length + 12 < n) {f : Field}
    (name : f.name = String.ofList (List.replicate n 'n')) :
    f ∉ ((sweep (fun _ cs => Dto.declared? cs) (probeRecord dss last n).text).filter
        fun d => !d.static).foldl (fun fields d => Dto.addField fields d.name d.type)
      ((splitTopLevel ',' (probeRecord dss last n).cut).foldl Dto.addComponent []) := by
  intro present
  obtain short | ⟨s, rest, suffix, ended⟩ := Record.name_of_mem_fields present
  · obtain ⟨front, back, split⟩ := List.append_of_mem (paren_mem_probeFront member paren)
    have cut : (probeRecord dss last n).cut.length ≤ front.length := by
      rw [Record.cut, behind_probeRecord, split, List.append_assoc, List.cons_append,
        takeWhile_stop (by decide)]
      exact (List.takeWhile_prefix _).length_le
    have whole := congrArg List.length split
    rw [List.length_append] at whole
    rw [name, String.toList_ofList, List.length_replicate] at short
    omega
  · have text : (probeRecord dss last n).text = ("record".toList ++ ' ' :: 'R' :: '(' ::
        probeFront dss last) ++ (List.replicate n 'n' ++ ')' :: " \x7b\x7d".toList) := by
      rw [Record.text_eq, behind_probeRecord, List.append_assoc]
      rfl
    have front : ("record".toList ++ ' ' :: 'R' :: '(' :: probeFront dss last).length =
        (probeFront dss last).length + 9 := by
      have word : "record".toList.length = 6 := by decide
      rw [List.length_append, word, List.length_cons, List.length_cons, List.length_cons]
      omega
    rw [text] at suffix
    rw [name, String.toList_ofList] at ended
    exact not_ended (by omega) suffix ended

end ProbeRecord

/-- Components over several lines, with several directives. -/
def productRecord : Record where
  name := "Product".toList
  components := [
    ⟨"\n  ".toList, [⟨"NotBlank".toList, none, [' ']⟩], ⟨"String".toList, none, 0⟩, [' '],
      "name".toList, []⟩,
    ⟨"\n  ".toList, [⟨"NotNull".toList, none, []⟩, ⟨"Valid".toList, none, ['\n']⟩],
      ⟨"Map".toList, some "String, List<Long>".toList, 0⟩, [' '], "prices".toList, []⟩,
    ⟨[' '], [], ⟨"java.time.Instant".toList, none, 2⟩, ['\t'], "sold".toList, [' ']⟩]

private theorem leading_productRecord :
    ∀ ws ∈ productRecord.components.map Component.directives, Leading ws := by
  decide

private theorem wellFormed_productRecord : productRecord.WellFormed where
  name := by decide
  named := by decide
  components := by decide +kernel
  distinct := by decide

/-- The fields of a record are its components, whatever their types and names are, exactly when no
directive has arguments or a qualifier. -/
theorem ofSource?_record_iff {dss : List (List Written)} (leading : ∀ ws ∈ dss, Leading ws) :
    (∀ r : Record, r.WellFormed → r.components.map Component.directives = dss → ∀ path,
      Dto.ofSource? r.text path =
        some ⟨String.ofList r.name, path, r.components.map Component.field⟩) ↔
      ∀ ws ∈ dss, ∀ w ∈ ws, IsSimple w := by
  constructor
  · intro recovered ws member w written
    obtain ⟨dss, last, rfl⟩ := (List.eq_nil_or_concat dss).resolve_left (List.ne_nil_of_mem member)
    rw [List.concat_eq_append] at leading recovered member
    have bare : ∀ ws ∈ dss ++ [last], ∀ w ∈ ws, w.arguments = none := by
      intro ws member w written
      by_contra some'
      obtain ⟨⟨space, inside⟩, arguments⟩ := Option.ne_none_iff_exists'.1 some'
      have paren : ')' ∈ leadText ws :=
        List.mem_flatMap.2 ⟨w, written, by simp [text_of_arguments arguments]⟩
      -- the last name is longer than all that could be read for it
      obtain ⟨n, long, long'⟩ : ∃ n, dss.length < n ∧ (probeFront dss last).length + 12 < n :=
        ⟨dss.length + (probeFront dss last).length + 13, by omega, by omega⟩
      have wf := wellFormed_probeRecord leading long
      have right := recovered _ wf directives_probeRecord none
      rw [Record.ofSource?_text wf] at right
      have last' : (probe n last).field ∈ (probeRecord dss last n).components.map Component.field :=
        List.mem_map_of_mem (List.mem_append_right _ (List.mem_singleton_self _))
      rw [← (Dto.mk.inj (Option.some.inj right)).2.2] at last'
      exact not_mem_fields_probeRecord member paren long' rfl last'
    refine ⟨bare ws member w written, ?_⟩
    have wf := wellFormed_probeRecord leading (Nat.lt_succ_self dss.length)
    have right := recovered _ wf directives_probeRecord none
    rw [Record.ofSource?_of_bare wf] at right
    · have unqualified := (Record.fields_of_bare_iff wf).1 (Dto.mk.inj (Option.some.inj right)).2.2
      rw [← @directives_probeRecord dss last (dss.length + 1)] at member
      obtain ⟨c, hc, rfl⟩ := List.mem_map.1 member
      exact unqualified c hc w written
    · intro c hc
      apply bare
      rw [← @directives_probeRecord dss last (dss.length + 1)]
      exact List.mem_map_of_mem hc
  · intro simple r wf directives path
    have each : ∀ c ∈ r.components, ∀ w ∈ c.directives, IsSimple w := by
      intro c hc
      apply simple c.directives
      rw [← directives]
      exact List.mem_map_of_mem hc
    have bare : ∀ c ∈ r.components, ∀ w ∈ c.directives, w.arguments = none :=
      fun c hc w hw => (each c hc w hw).1
    rw [Record.ofSource?_of_bare wf bare,
      (Record.fields_of_bare_iff wf).2 fun c hc w hw => (each c hc w hw).2]

theorem ofSource?_productRecord :
    productRecord.text = ("record Product(\n  @NotBlank String name,\n  @NotNull@Valid\n" ++
      "Map<String, List<Long>> prices, java.time.Instant[][]\tsold ) \x7b\x7d").toList ∧
    ∀ path, Dto.ofSource? productRecord.text path = some ⟨"Product", path,
      [⟨"name", "String"⟩, ⟨"prices", "Map<String, List<Long>>"⟩,
        ⟨"sold", "java.time.Instant[][]"⟩]⟩ := by
  have simple : ∀ ws ∈ productRecord.components.map Component.directives, ∀ w ∈ ws, IsSimple w := by
    decide
  refine ⟨by decide +kernel, fun path => ?_⟩
  exact (ofSource?_record_iff leading_productRecord).2 simple productRecord wellFormed_productRecord rfl path

/-- A size directive in front of the first component. -/
def sizeRecord : Record where
  name := ['P']
  components := [
    ⟨[], [⟨"Size".toList, some ([], "min = 1".toList), [' ']⟩], ⟨"String".toList, none, 0⟩, [' '],
      "name".toList, []⟩,
    ⟨[' '], [], ⟨"int".toList, none, 0⟩, [' '], ['x'], []⟩]

theorem ofSource?_ne_sizeRecord : (∀ c ∈ sizeRecord.components, c.WellFormed) ∧
    sizeRecord.text = "record P(@Size(min = 1) String name, int x) \x7b\x7d".toList ∧
    sizeRecord.components.map Component.field = [⟨"name", "String"⟩, ⟨"x", "int"⟩] ∧
    Dto.ofSource? sizeRecord.text none = some ⟨"P", none, [⟨"1", "(min ="⟩]⟩ := by
  refine ⟨by decide +kernel, by decide +kernel, by decide, by decide +kernel⟩

end ApiCollection
