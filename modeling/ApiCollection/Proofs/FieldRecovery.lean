import ApiCollection.Proofs.RecordSearch

/-!
# Recovered fields

A class is read as the declarations of its members, together with what reads like a declaration in
their directives and initialisers. Its fields are those that its members declare, whatever these
are, exactly when the directives and the initialisers declare nothing that carries data.
-/

namespace ApiCollection

open Text Java

namespace Dto

/-- Whether a declaration gives a field. -/
def Declared.isKept (d : Declared) : Bool :=
  !d.static && !deniedNames.contains (String.ofList d.name) &&
    !deniedTypes.contains (TypeExpr.ofChars d.type).base

def Declared.field (d : Declared) : Field := ⟨String.ofList d.name, String.ofList (trim d.type)⟩

def firstOfName (fields : List Field) : List Field := fields.eraseDupsBy fun f g => f.name == g.name

def fieldsOf (ds : List Declared) : List Field :=
  firstOfName ((ds.filter Declared.isKept).map Declared.field)

def addNew (fields : List Field) (f : Field) : List Field :=
  if fields.any (·.name == f.name) then fields else fields ++ [f]

private theorem addField_of_kept {d : Declared} (kept : d.isKept = true) (fields : List Field) :
    addField fields d.name d.type = addNew fields d.field := by
  simp only [Declared.isKept, Bool.and_eq_true, Bool.not_eq_true'] at kept
  rw [addField, kept.1.2, kept.2]
  rfl

private theorem addField_of_left {d : Declared} (member : d.static = false)
    (left : d.isKept = false)
    (fields : List Field) : addField fields d.name d.type = fields := by
  rw [Declared.isKept, member, Bool.not_false, Bool.true_and, ← Bool.not_or,
    Bool.not_eq_false'] at left
  exact if_pos left

private theorem foldl_addField_eq (ds : List Declared) (fields : List Field) :
    (ds.filter fun d => !d.static).foldl (fun fields d => addField fields d.name d.type) fields =
      ((ds.filter Declared.isKept).map Declared.field).foldl addNew fields := by
  induction ds generalizing fields with
  | nil => rfl
  | cons d ds ih =>
    rw [List.filter_cons, List.filter_cons]
    cases static : d.static with
    | true =>
      have left : d.isKept = false := by simp [Declared.isKept, static]
      rw [left]
      exact ih fields
    | false =>
      cases kept : d.isKept with
      | true =>
        apply Eq.trans _ (ih (addNew fields d.field))
        rw [← addField_of_kept kept]
        rfl
      | false =>
        have same := addField_of_left static kept fields
        rw [Bool.not_false, if_pos rfl, List.foldl_cons, same]
        exact ih fields

private theorem foldl_addNew (fs fields : List Field) : fs.foldl addNew fields =
    fields ++ firstOfName (fs.filter fun f => !fields.any (·.name == f.name)) := by
  induction fs generalizing fields with
  | nil => simp [firstOfName]
  | cons f fs ih =>
    rw [List.foldl_cons, ih, addNew, List.filter_cons]
    cases present : fields.any (·.name == f.name) with
    | true => rfl
    | false =>
      have later : fs.filter (fun g => !(fields ++ [f]).any (·.name == g.name)) =
          (fs.filter fun g => !fields.any (·.name == g.name)).filter fun g =>
            decide ((g.name == f.name) = false) := by
        rw [List.filter_filter]
        apply List.filter_congr
        intro g _
        rw [List.any_append, List.any_cons, List.any_nil, Bool.or_false, Bool.not_or, Bool.and_comm,
          Bool.decide_eq_false, Bool.beq_comm]
      rw [Bool.not_false, if_pos rfl, if_neg Bool.false_ne_true, later, List.append_assoc,
        firstOfName, firstOfName, List.eraseDupsBy_cons]
      rfl

private theorem firstOfName_eq_nil {fs : List Field} : firstOfName fs = [] ↔ fs = [] := by
  cases fs with
  | nil => simp [firstOfName]
  | cons f fs => simp [firstOfName, List.eraseDupsBy_cons]

private theorem fieldsOf_eq_nil {ds : List Declared} :
    fieldsOf ds = [] ↔ ∀ d ∈ ds, d.isKept = false := by
  rw [fieldsOf, firstOfName_eq_nil, List.map_eq_nil_iff, List.filter_eq_nil_iff]
  simp only [Bool.not_eq_true]

end Dto

def Java.ReturnType.spaced (t : ReturnType) : SpacedType :=
  ⟨t.base, t.arguments.map fun inside => ([], inside), List.replicate t.arrays []⟩

private theorem Java.ReturnType.text_spaced (t : ReturnType) : t.spaced.text = t.text := by
  have arrays : arrayText (List.replicate t.arrays []) =
      (List.replicate t.arrays "[]".toList).flatten := by
    rw [arrayText, List.flatMap_replicate]
    rfl
  rw [SpacedType.text, ReturnType.text, ← arrays, SpacedType.argumentText, ReturnType.spaced]
  cases t.arguments <;> rfl

private theorem Java.ReturnType.trim_text {t : ReturnType} (wf : t.WellFormed) :
    trim t.text = t.text := by
  have spaced : t.spaced.WellFormed := by
    refine ⟨wf.characters, wf.nonempty, ?_, ?_⟩
    · intro found member
      obtain ⟨inside, arguments, rfl⟩ := Option.map_eq_some_iff.1 member
      exact ⟨rfl, wf.arguments inside arguments⟩
    · intro blanks member
      rw [List.eq_of_mem_replicate member]
      rfl
  rw [← ReturnType.text_spaced, Java.trim_type spaced]

def FieldDeclaration.field (f : FieldDeclaration) : Field :=
  ⟨String.ofList f.name, String.ofList f.type.text⟩

structure FieldMember where
  front : List Char
  directives : List Written
  declaration : FieldDeclaration

namespace FieldMember

def text (m : FieldMember) : List Char :=
  m.front ++ (leadText m.directives ++ m.declaration.text)

structure WellFormed (m : FieldMember) : Prop where
  front : m.front.all isBlank = true
  directives : ∀ w ∈ m.directives, w.Standing
  declaration : m.declaration.WellFormed
  arguments : ∀ w ∈ m.directives, ∀ arguments ∈ w.arguments, Dto.Recordless arguments.2
  initialiser : ∀ t ∈ m.declaration.initialiser, Dto.Recordless t

instance (m : FieldMember) : Decidable m.WellFormed :=
  decidable_of_iff (_ ∧ _ ∧ _ ∧ _ ∧ _) ⟨fun ⟨a, b, c, d, e⟩ => ⟨a, b, c, d, e⟩,
    fun ⟨a, b, c, d, e⟩ => ⟨a, b, c, d, e⟩⟩

def declarations (m : FieldMember) : List Dto.Declared :=
  (m.directives.flatMap fun w => Dto.declarations w.text) ++
    m.declaration.declared :: Dto.declarations m.declaration.behind

variable {m : FieldMember}

private theorem filter_declarations
    (directives : ∀ w ∈ m.directives, ∀ d ∈ Dto.declarations w.text, d.isKept = false)
    (initialiser : ∀ d ∈ Dto.declarations m.declaration.behind, d.isKept = false) :
    m.declarations.filter Dto.Declared.isKept =
      if m.declaration.declared.isKept then [m.declaration.declared] else [] := by
  have lead : (m.directives.flatMap fun w => Dto.declarations w.text).filter
      Dto.Declared.isKept = [] := by
    rw [List.filter_eq_nil_iff]
    intro d member
    obtain ⟨w, written, member⟩ := List.mem_flatMap.1 member
    exact ne_true_of_eq_false (directives w written d member)
  have behind : (Dto.declarations m.declaration.behind).filter Dto.Declared.isKept = [] := by
    rw [List.filter_eq_nil_iff]
    exact fun d member => ne_true_of_eq_false (initialiser d member)
  rw [declarations, List.filter_append, lead, List.filter_cons, behind, List.nil_append]

variable (wf : m.WellFormed) (rest : List Char)

include wf

private theorem field_declared : m.declaration.declared.field = m.declaration.field := by
  rw [Dto.Declared.field, FieldDeclaration.field, FieldDeclaration.declared,
    ReturnType.trim_text wf.declaration.type]

private theorem declarations_text :
    Dto.declarations (m.text ++ rest) = m.declarations ++ Dto.declarations rest := by
  have begins := Dto.unblank_of_dotted (FieldDeclaration.head?_text wf.declaration rest)
  have behind : Dto.declarations (m.declaration.behind ++ rest) =
      Dto.declarations m.declaration.behind ++ Dto.declarations rest := by
    rw [FieldDeclaration.behind]
    cases m.declaration.initialiser with
    | none =>
      rw [Option.elim_none, Dto.declarations_nil]
      rfl
    | some t =>
      rw [Option.elim_some, List.append_assoc]
      exact Dto.declarations_mark (by decide) t rest
  rw [text, List.append_assoc, List.append_assoc, Dto.declarations_blanks wf.front,
    Dto.declarations_leadText wf.directives begins
      (FieldDeclaration.undeclared_text wf.declaration rest),
    Dto.declarations_of_some (FieldDeclaration.declared?_text wf.declaration rest), behind,
    declarations]
  simp

private theorem noRecord_text {rest : List Char} (h : Dto.NoRecord rest) :
    Dto.NoRecord (m.text ++ rest) := by
  have begins := Dto.unblank_of_dotted (FieldDeclaration.head?_text wf.declaration rest)
  rw [text, List.append_assoc, List.append_assoc]
  apply Dto.noRecord_blanks wf.front
  apply Dto.noRecord_leadText wf.directives wf.arguments begins
    (FieldDeclaration.unopened_text wf.declaration rest)
  exact FieldDeclaration.noRecord_text wf.declaration wf.initialiser h

end FieldMember

/-- A class whose body is a sequence of field declarations. -/
structure FieldClass where
  /-- What stands in front of the body. -/
  header : List Char
  members : List FieldMember
  trail : List Char
  /-- What follows the body. -/
  footer : List Char

namespace FieldClass

def body (c : FieldClass) : List Char :=
  c.members.flatMap FieldMember.text ++ (c.trail ++ '\x7d' :: c.footer)

def text (c : FieldClass) : List Char := c.header ++ '\x7b' :: c.body

/-- The header names a class, and outside of the body is neither a field nor a record. -/
structure WellFormed (c : FieldClass) : Prop where
  named : (find? (fun _ cs => Dto.declaredName? cs) c.header).isSome = true
  header : Dto.declarations (c.header ++ ['\x7b']) = [] ∧ Dto.Recordless c.header
  members : ∀ m ∈ c.members, m.WellFormed
  trail : c.trail.all isBlank = true
  footer : Dto.declarations c.footer = [] ∧ Dto.Recordless c.footer

/-- The fields that are declared in the body and carry data, each name once. -/
def fields (c : FieldClass) : List Field :=
  Dto.firstOfName ((c.members.filter fun m => m.declaration.declared.isKept).map fun m =>
    m.declaration.field)

variable {c : FieldClass} (wf : c.WellFormed)

private theorem declarations_members {ms : List FieldMember} (wf : ∀ m ∈ ms, m.WellFormed)
    (rest : List Char) : Dto.declarations (ms.flatMap FieldMember.text ++ rest) =
      ms.flatMap FieldMember.declarations ++ Dto.declarations rest := by
  induction ms with
  | nil => rfl
  | cons m ms ih =>
    rw [List.forall_mem_cons] at wf
    rw [List.flatMap_cons, List.flatMap_cons, List.append_assoc, List.append_assoc,
      FieldMember.declarations_text wf.1, ih wf.2]

private theorem noRecord_members {ms : List FieldMember} (wf : ∀ m ∈ ms, m.WellFormed)
    {rest : List Char}
    (h : Dto.NoRecord rest) : Dto.NoRecord (ms.flatMap FieldMember.text ++ rest) := by
  induction ms with
  | nil => exact h
  | cons m ms ih =>
    rw [List.forall_mem_cons] at wf
    rw [List.flatMap_cons, List.append_assoc]
    exact FieldMember.noRecord_text wf.1 (ih wf.2)

include wf

private theorem declarations_text :
    Dto.declarations c.text = c.members.flatMap FieldMember.declarations := by
  rw [text, Dto.declarations_mark (by decide), wf.header.1, body, declarations_members wf.members,
    Dto.declarations_blanks wf.trail, Dto.declarations_unword (by decide), wf.footer.1,
    List.append_nil, List.nil_append]

private theorem noRecord_text : Dto.NoRecord c.text := by
  apply Dto.noRecord_recordless wf.header.2 (by decide) (by decide) (by decide)
  apply noRecord_members wf.members
  apply Dto.noRecord_blanks wf.trail
  apply Dto.noRecord_cons (by decide)
  intro s suffix
  exact Dto.recordComponents?_of_opensRecord (wf.footer.2 s ((List.mem_tails _ _).2 suffix))

private theorem exists_declaredName :
    ∃ name, find? (fun _ cs => Dto.declaredName? cs) c.text = some name := by
  have stop (prev : Option Char) (s : List Char) :
      Dto.declaredName? (s ++ '\x7b' :: c.body) = Dto.declaredName? s := by
    rw [Dto.declaredName?, Dto.declaredName?,
      Dto.keyword?_stop areWords_modelKeywords (by decide) (by decide)]
    cases keyword? ["class", "record"] s with
    | none => rfl
    | some found =>
      simp only [Option.map_some, Option.bind_eq_bind, Option.bind_some]
      rw [word?_stop (by decide)]
      cases word? found.2 <;> rfl
  obtain ⟨name, found⟩ := Option.isSome_iff_exists.1 wf.named
  rw [find?] at found
  refine ⟨name, ?_⟩
  rw [find?, text, findFrom_stop stop (fun _ => rfl), found]
  rfl

/-- The fields of a class are all that read like field declarations in its members. -/
theorem ofSource?_text (path : Option String) : (Dto.ofSource? c.text path).map Dto.fields =
    some (Dto.fieldsOf (c.members.flatMap FieldMember.declarations)) := by
  obtain ⟨name, found⟩ := exists_declaredName wf
  have declared := declarations_text wf
  rw [Dto.declarations] at declared
  have kept := Dto.foldl_addField_eq (c.members.flatMap FieldMember.declarations) []
  rw [Dto.foldl_addNew] at kept
  rw [Dto.ofSource?, found, Dto.find?_of_noRecord (noRecord_text wf), declared]
  simpa [Dto.fieldsOf] using kept

omit wf in
/-- When nothing else in its members is kept, the fields of a class are those that it declares. -/
theorem fieldsOf_members {ms : List FieldMember} (wf : ∀ m ∈ ms, m.WellFormed)
    (silent : ∀ m ∈ ms, (∀ w ∈ m.directives, ∀ d ∈ Dto.declarations w.text, d.isKept = false) ∧
      ∀ d ∈ Dto.declarations m.declaration.behind, d.isKept = false) :
    ((ms.flatMap FieldMember.declarations).filter Dto.Declared.isKept).map Dto.Declared.field =
      (ms.filter fun m => m.declaration.declared.isKept).map fun m => m.declaration.field := by
  induction ms with
  | nil => rfl
  | cons m ms ih =>
    rw [List.forall_mem_cons] at wf silent
    have later := ih wf.2 silent.2
    rw [List.flatMap_cons, List.filter_append, List.filter_cons,
      FieldMember.filter_declarations silent.1.1 silent.1.2]
    split
    · rw [List.map_append, List.map_cons, later, FieldMember.field_declared wf.1]
      rfl
    · exact later

end FieldClass

def staticField : FieldDeclaration :=
  ⟨"private", [' '], [("static", [' '])], ⟨['T'], none, 0⟩, [' '], ['n'], [], none⟩

def staticMember (ws : List Written) (initialiser : Option (List Char)) : FieldMember :=
  ⟨[' '], ws, { staticField with initialiser := initialiser }⟩

def staticClass (ws : List Written) (initialiser : Option (List Char)) : FieldClass :=
  ⟨"class C ".toList, [staticMember ws initialiser], [], []⟩

section StaticClass

variable {ws : List Written} {initialiser : Option (List Char)}

private theorem wellFormed_staticMember (standing : ∀ w ∈ ws, w.Standing)
    (arguments : ∀ w ∈ ws, ∀ arguments ∈ w.arguments, Dto.Recordless arguments.2)
    (recordless : ∀ t ∈ initialiser, Dto.Recordless t) :
    (staticMember ws initialiser).WellFormed where
  front := rfl
  directives := standing
  declaration :=
    have wf : staticField.WellFormed := by decide
    ⟨wf.access, wf.space, wf.spaced, wf.modifiers, wf.gaps, wf.type, wf.typed, wf.gap, wf.apart,
      wf.name, wf.named, wf.trail⟩
  arguments := arguments
  initialiser := recordless

private theorem wellFormed_staticClass (wf : (staticMember ws initialiser).WellFormed) :
    (staticClass ws initialiser).WellFormed := by
  have named : (find? (fun _ cs => Dto.declaredName? cs) "class C ".toList).isSome = true := by
    decide
  have header : Dto.declarations ("class C ".toList ++ ['\x7b']) = [] :=
    Dto.declarations_eq_nil (by decide) (by decide)
  have recordless : Dto.Recordless "class C ".toList ∧ Dto.Recordless [] := by decide
  constructor
  · exact named
  · exact ⟨header, recordless.1⟩
  · exact List.forall_mem_singleton.2 wf
  · rfl
  · exact ⟨Dto.declarations_nil, recordless.2⟩

/-- What is kept of a static field stands in its directives or its initialiser. -/
theorem isKept_of_staticClass {d : Dto.Declared}
    (wf : (staticClass ws initialiser).WellFormed)
    (right : (Dto.ofSource? (staticClass ws initialiser).text none).map Dto.fields =
      some (staticClass ws initialiser).fields)
    (member : d ∈ (staticMember ws initialiser).declarations) : d.isKept = false := by
  rw [FieldClass.ofSource?_text wf] at right
  have none : (staticClass ws initialiser).fields = [] := rfl
  rw [none, Option.some.injEq, Dto.fieldsOf_eq_nil] at right
  apply right d
  exact List.mem_flatMap.2 ⟨_, List.mem_singleton_self _, member⟩

end StaticClass

/-- The fields of classes are those that their members declare, in order, each name once and without
those that carry no data, exactly when the directives and the initialisers declare no other. -/
theorem ofSource?_fields_iff {written : Written → Prop} {assigned : List Char → Prop}
    (standing : ∀ w, written w → w.Standing)
    (arguments : ∀ w, written w → ∀ arguments ∈ w.arguments, Dto.Recordless arguments.2)
    (recordless : ∀ t, assigned t → Dto.Recordless t) :
    (∀ c : FieldClass, c.WellFormed →
      (∀ m ∈ c.members, (∀ w ∈ m.directives, written w) ∧
        ∀ t ∈ m.declaration.initialiser, assigned t) →
      ∀ path, (Dto.ofSource? c.text path).map Dto.fields = some c.fields) ↔
    (∀ w, written w → ∀ d ∈ Dto.declarations w.text, d.isKept = false) ∧
      ∀ t, assigned t → ∀ d ∈ Dto.declarations (t ++ [';']), d.isKept = false := by
  constructor
  · intro recovered
    constructor
    · intro w known d member
      have wf : (staticClass [w] none).WellFormed := by
        apply wellFormed_staticClass
        apply wellFormed_staticMember
        · exact List.forall_mem_singleton.2 (standing w known)
        · exact List.forall_mem_singleton.2 (arguments w known)
        · rintro t ⟨⟩
      have right := recovered _ wf (List.forall_mem_singleton.2
        ⟨List.forall_mem_singleton.2 known, by rintro t ⟨⟩⟩) none
      apply isKept_of_staticClass wf right
      rw [FieldMember.declarations, List.mem_append]
      exact .inl (List.mem_flatMap.2 ⟨w, List.mem_singleton_self w, member⟩)
    · intro t known d member
      have known' : ∀ u ∈ some t, assigned u := by
        rintro u ⟨⟩
        exact known
      have wf : (staticClass [] (some t)).WellFormed := by
        apply wellFormed_staticClass
        apply wellFormed_staticMember
        · exact List.forall_mem_nil _
        · exact List.forall_mem_nil _
        · exact fun u same => recordless u (known' u same)
      have right := recovered _ wf (List.forall_mem_singleton.2
        ⟨List.forall_mem_nil _, known'⟩) none
      apply isKept_of_staticClass wf right
      rw [FieldMember.declarations, List.mem_append]
      exact .inr (List.mem_cons_of_mem _ member)
  · rintro ⟨directives, initialisers⟩ c wf known path
    rw [FieldClass.ofSource?_text wf, Dto.fieldsOf, FieldClass.fields,
      FieldClass.fieldsOf_members wf.members]
    intro m member
    obtain ⟨written', assigned'⟩ := known m member
    refine ⟨fun w hw => directives w (written' w hw), ?_⟩
    rw [FieldDeclaration.behind]
    cases initialiser : m.declaration.initialiser with
    | none =>
      rw [Option.elim_none, Dto.declarations_nil]
      exact List.forall_mem_nil _
    | some t => exact initialisers t (assigned' t initialiser)

/-- A class with a constant, a logger and a name that is declared twice. -/
def userClass : FieldClass where
  header := "package com.shop;\n\n@Data\npublic class UserDTO ".toList
  members := [
    ⟨"\n  ".toList, [], "private", [' '], [("static", [' ']), ("final", [' '])],
      ⟨"long".toList, none, 0⟩, [' '], "version".toList, [' '], some " 1L".toList⟩,
    ⟨"\n  ".toList, [⟨"Column".toList, some ([], "name = \"public_id\"".toList), "\n  ".toList⟩],
      "private", [' '], [], ⟨"Long".toList, none, 0⟩, [' '], "id".toList, [], none⟩,
    ⟨"\n  ".toList, [⟨"Valid".toList, none, "\n  ".toList⟩], "protected", [' '],
      [("final", [' '])], ⟨"java.util.Map".toList, some "String, List<Long>".toList, 1⟩, [' '],
      "prices".toList, [], some "load(\"a;b\")".toList⟩,
    ⟨"\n  ".toList, [], "private", [' '], [], ⟨"org.slf4j.Logger".toList, none, 0⟩, [' '],
      "audit".toList, [], none⟩,
    ⟨"\n  ".toList, [], "public", [' '], [], ⟨"String".toList, none, 0⟩, [' '], "id".toList, [],
      none⟩]
  trail := ['\n']
  footer := ['\n']

private theorem wellFormed_userClass : userClass.WellFormed where
  named := by decide +kernel
  header := by
    have text : userClass.header ++ ['\x7b'] =
        "package com.shop".toList ++ ';' :: "\n\n@Data\npublic class UserDTO \x7b".toList := by
      decide
    constructor
    · rw [text, Dto.declarations_mark (by decide), Dto.declarations_quiet (by decide),
        Dto.declarations_eq_nil (by decide) (by decide)]
      rfl
    · decide +kernel
  members := by decide +kernel
  trail := by decide
  footer := ⟨Dto.declarations_eq_nil (by decide) (by decide), by decide⟩

/-- Nothing is declared in a directive with a text and in initialisers without access modifiers. -/
theorem ofSource?_userClass :
    userClass.text = ("package com.shop;\n\n" ++
      "@Data\n" ++
      "public class UserDTO \x7b\n" ++
      "  private static final long version = 1L;\n" ++
      "  @Column(name = \"public_id\")\n" ++
      "  private Long id;\n" ++
      "  @Valid\n" ++
      "  protected final java.util.Map<String, List<Long>>[] prices=load(\"a;b\");\n" ++
      "  private org.slf4j.Logger audit;\n" ++
      "  public String id;\n" ++
      "\x7d\n").toList ∧
    ∀ path, (Dto.ofSource? userClass.text path).map Dto.fields =
      some [⟨"id", "Long"⟩, ⟨"prices", "java.util.Map<String, List<Long>>[]"⟩] := by
  have standing : ∀ w ∈ userClass.members.flatMap FieldMember.directives, w.Standing := by
    decide +kernel
  have arguments : ∀ w ∈ userClass.members.flatMap FieldMember.directives,
      ∀ arguments ∈ w.arguments, Dto.Recordless arguments.2 := by decide +kernel
  have directives : ∀ w ∈ userClass.members.flatMap FieldMember.directives,
      ∀ d ∈ Dto.declarations w.text, d.isKept = false := by decide +kernel
  have initialisers : ∀ t ∈ userClass.members.filterMap (·.declaration.initialiser),
      Dto.Recordless t ∧ Dto.Quiet t := by decide +kernel
  have known : ∀ m ∈ userClass.members,
      (∀ w ∈ m.directives, w ∈ userClass.members.flatMap FieldMember.directives) ∧
      ∀ t ∈ m.declaration.initialiser,
        t ∈ userClass.members.filterMap (·.declaration.initialiser) :=
    fun m member => ⟨fun w written => List.mem_flatMap.2 ⟨m, member, written⟩,
      fun t assigned => List.mem_filterMap.2 ⟨m, member, assigned⟩⟩
  have fields : userClass.fields =
      [⟨"id", "Long"⟩, ⟨"prices", "java.util.Map<String, List<Long>>[]"⟩] := by decide +kernel
  refine ⟨by simp only [String.toList_append]; decide +kernel, fun path => ?_⟩
  rw [← fields]
  apply (ofSource?_fields_iff standing arguments fun t assigned => (initialisers t assigned).1).2 _
    userClass wellFormed_userClass known
  refine ⟨directives, fun t assigned d member => ?_⟩
  rw [Dto.declarations_quiet (initialisers t assigned).2] at member
  cases member

/-- A class with a field declaration in the text of a directive. -/
def schemaClass : FieldClass where
  header := "class UserDto ".toList
  members := [
    ⟨"\n  ".toList, [⟨"Schema".toList,
        some ([], "description = \"private String secret;\"".toList), "\n  ".toList⟩],
      "private", [' '], [], ⟨"Long".toList, none, 0⟩, [' '], "id".toList, [], none⟩]
  trail := ['\n']
  footer := []

private theorem wellFormed_schemaClass : schemaClass.WellFormed where
  named := by decide
  header := ⟨Dto.declarations_eq_nil (by decide) (by decide), by decide⟩
  members := by decide +kernel
  trail := by decide
  footer := ⟨Dto.declarations_nil, by decide⟩

/-- The text in quotes is taken for a field. -/
theorem ofSource?_ne_schemaClass : schemaClass.WellFormed ∧
    schemaClass.text = ("class UserDto \x7b\n" ++
      "  @Schema(description = \"private String secret;\")\n  private Long id;\n\x7d").toList ∧
    schemaClass.fields = [⟨"id", "Long"⟩] ∧
    Dto.ofSource? schemaClass.text none =
      some ⟨"UserDto", none, [⟨"secret", "String"⟩, ⟨"id", "Long"⟩]⟩ := by
  refine ⟨wellFormed_schemaClass, ?_, by decide +kernel, by decide +kernel⟩
  simp only [String.toList_append]
  decide +kernel

end ApiCollection
