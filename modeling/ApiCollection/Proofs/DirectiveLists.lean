import ApiCollection.Proofs.AttributeLists
import ApiCollection.Proofs.RecordRecovery

/-!
# Lists of directives

Directives that are written one behind the other are read as they were written: each with its simple
name, its text, and under every key the text of its first attribute with that key. What these texts
hold does not matter, as long as there are no quotes and no backslashes in them.
-/

namespace ApiCollection.Java

open Text Binding

def valueOf? (key : String) (piece : List Char) : Option String := do
  let (left, right) ← cutAtChar? '=' piece
  guard (String.ofList (trim left) == key)
  return String.ofList (trimMatches (· == '"') (trim right))

private theorem argument_eq (d : Directive) (key : String) : d.argument key =
    d.args.bind fun args => (splitTopLevel ',' args.toList).findSome? (valueOf? key) := rfl

private theorem trimMatches_quotedText {t : List Char} (quote : '"' ∉ t) :
    trimMatches (· == '"') (quotedText t) = t := by
  have unquoted {cs : List Char} (absent : '"' ∉ cs) : cs.dropWhile (· == '"') = cs := by
    apply dropWhile_of_head?
    cases head : cs.head? with
    | none => rfl
    | some c =>
      rw [Option.any_some, beq_eq_false_iff_ne]
      rintro rfl
      exact absent (List.mem_of_head? head)
  have back : dropEndWhile (· == '"') (t ++ ['"']) = t := by
    have reversed : '"' ∉ t.reverse := mt List.mem_reverse.1 quote
    rw [dropEndWhile, List.reverse_append, List.reverse_singleton, List.singleton_append,
      List.dropWhile_cons_of_pos (p := (· == '"')) rfl, unquoted reversed, List.reverse_reverse]
  rw [trimMatches, quotedText, List.dropWhile_cons_of_pos (p := (· == '"')) rfl]
  cases t with
  | nil => rfl
  | cons c t =>
    have other : ¬(c == '"') = true := by
      rw [beq_iff_eq]
      rintro rfl
      exact quote List.mem_cons_self
    rw [List.cons_append, List.dropWhile_cons_of_neg (p := (· == '"')) other]
    exact back

namespace AttributeText

def find? (key : String) (as : List AttributeText) : Option String :=
  (as.find? fun a => String.ofList a.key == key).map fun a => String.ofList a.value

/-- Only keys and texts matter for what is found. -/
theorem find?_eq (key : String) (as : List AttributeText) : find? key as =
    ((as.map fun a => (a.key, a.value)).find? fun p => String.ofList p.1 == key).map
      fun p => String.ofList p.2 := by
  rw [find?, List.find?_map, Option.map_map]
  rfl

/-- An attribute is legible when it is well-formed and has a key. -/
structure Legible (a : AttributeText) : Prop extends a.WellFormed where
  named : a.key ≠ []

variable {a : AttributeText}

theorem solid_key (legible : a.Legible) : Solid a.key :=
  ⟨legible.named, fun c member => isBlank_of_isIdentifierChar
    (isIdentifierChar_of_isNameLetter (List.all_eq_true.1 legible.letters c member))⟩

/-- A piece says the text of its attribute, for the key of the attribute. -/
theorem valueOf?_text (legible : a.Legible) (key : String) : valueOf? key a.text =
    if String.ofList a.key == key then some (String.ofList a.value) else none := by
  obtain ⟨front, before, behind, back⟩ := Gaps.isBlank_iff.1 legible.blank
  have solid := solid_key legible
  have text : a.text = (a.gaps.front ++ (a.key ++ a.gaps.before)) ++
      '=' :: (a.gaps.behind ++ (quotedText a.value ++ a.gaps.back)) := by
    simp [AttributeText.text, assignmentText]
  have sign : '=' ∉ a.gaps.front ++ (a.key ++ a.gaps.before) := by
    rw [List.mem_append, List.mem_append, not_or, not_or]
    exact ⟨not_mem_of_all front (by decide), not_mem_of_all legible.letters (by decide),
      not_mem_of_all before (by decide)⟩
  obtain ⟨c, first⟩ := Option.ne_none_iff_exists'.1 (mt List.head?_eq_none_iff.1 solid.1)
  obtain ⟨d, last⟩ := Option.ne_none_iff_exists'.1 (mt List.getLast?_eq_none_iff.1 solid.1)
  have left : trim (a.gaps.front ++ (a.key ++ a.gaps.before)) = a.key :=
    trim_between front first (solid.2 c (List.mem_of_head? first)) last
      (solid.2 d (List.mem_of_getLast? last)) before
  have right : trim (a.gaps.behind ++ (quotedText a.value ++ a.gaps.back)) =
      quotedText a.value := by
    have ends : (quotedText a.value).getLast? = some '"' := by
      rw [quotedText, ← List.cons_append, List.getLast?_concat]
    exact trim_between behind rfl (by decide) ends (by decide) back
  rw [valueOf?, text, cutAtChar?_append sign]
  rw [Option.bind_eq_bind, Option.bind_some]
  dsimp only
  rw [left, right, trimMatches_quotedText legible.quote]
  cases String.ofList a.key == key <;> rfl

private theorem findSome?_pieces {as : List AttributeText} (legible : ∀ a ∈ as, a.Legible)
    (key : String) :
    (as.map text).findSome? (valueOf? key) = find? key as := by
  induction as with
  | nil => rfl
  | cons a as ih =>
    rw [List.forall_mem_cons] at legible
    rw [List.map_cons, List.findSome?_cons, valueOf?_text legible.1, ih legible.2, find?, find?,
      List.find?_cons]
    cases String.ofList a.key == key <;> rfl

def trimFront (a : AttributeText) : AttributeText := { a with gaps := { a.gaps with front := [] } }

def trimBack (a : AttributeText) : AttributeText := { a with gaps := { a.gaps with back := [] } }

private theorem Legible.trimFront (legible : a.Legible) : a.trimFront.Legible where
  blank := by
    obtain ⟨-, before, behind, back⟩ := Gaps.isBlank_iff.1 legible.blank
    exact Gaps.isBlank_iff.2 ⟨rfl, before, behind, back⟩
  letters := legible.letters
  quote := legible.quote
  backslash := legible.backslash
  named := legible.named

private theorem Legible.trimBack (legible : a.Legible) : a.trimBack.Legible where
  blank := by
    obtain ⟨front, before, behind, -⟩ := Gaps.isBlank_iff.1 legible.blank
    exact Gaps.isBlank_iff.2 ⟨front, before, behind, rfl⟩
  letters := legible.letters
  quote := legible.quote
  backslash := legible.backslash
  named := legible.named

private theorem attributeList_front (a : AttributeText) (as : List AttributeText) :
    attributeList (a :: as) = a.gaps.front ++ attributeList (a.trimFront :: as) := by
  have text : a.text = a.gaps.front ++ a.trimFront.text := rfl
  rw [attributeList, attributeList, List.map_cons, List.map_cons, text]
  cases as with
  | nil => rw [List.map_nil, joinWith_singleton, joinWith_singleton]
  | cons b as => simp only [List.map_cons, joinWith_cons_cons, List.append_assoc]

private theorem attributeList_back (as : List AttributeText) (a : AttributeText) :
    attributeList (as ++ [a]) = attributeList (as ++ [a.trimBack]) ++ a.gaps.back := by
  have text : a.text = a.trimBack.text ++ a.gaps.back := by
    simp [AttributeText.text, trimBack, assignmentText]
  rw [attributeList, attributeList, List.map_append, List.map_append, List.map_singleton,
    List.map_singleton, text, joinWith_concat_append]

private theorem head?_attributeList (legible : a.Legible) (as : List AttributeText) :
    ∃ c, (attributeList (a.trimFront :: as)).head? = some c ∧ isBlank c = false := by
  obtain ⟨c, key, split⟩ := List.exists_cons_of_ne_nil legible.named
  refine ⟨c, ?_, (solid_key legible).2 c (split ▸ List.mem_cons_self)⟩
  have text : a.trimFront.text.head? = some c := by
    simp [AttributeText.text, trimFront, assignmentText, split]
  rw [attributeList, List.map_cons]
  cases as with
  | nil => rw [List.map_nil, joinWith_singleton, text]
  | cons b as =>
    rw [List.map_cons, joinWith_cons_cons, List.append_assoc, List.head?_append, text]
    rfl

private theorem getLast?_attributeList (as : List AttributeText) (a : AttributeText) :
    (attributeList (as ++ [a.trimBack])).getLast? = some '"' := by
  have text : a.trimBack.text =
      (a.gaps.front ++ (assignmentText a.gaps a.key ++ '"' :: a.value)) ++ ['"'] := by
    simp [AttributeText.text, trimBack, quotedText, assignmentText]
  rw [attributeList, List.map_append, List.map_singleton, text, joinWith_concat_append,
    List.getLast?_concat]

/-- The blanks at the ends of an argument list belong to no attribute. -/
theorem exists_trimmed {as : List AttributeText} (legible : ∀ a ∈ as, a.Legible) :
    ∃ bs : List AttributeText, trim (attributeList as) = attributeList bs ∧
      (∀ b ∈ bs, b.Legible) ∧ ∀ key, find? key bs = find? key as := by
  cases as with
  | nil => exact ⟨[], rfl, legible, fun _ => rfl⟩
  | cons a as =>
    rw [List.forall_mem_cons] at legible
    obtain ⟨front, -, -, -⟩ := Gaps.isBlank_iff.1 legible.1.blank
    obtain ⟨c, head, solid⟩ := head?_attributeList legible.1 as
    have each : ∀ b ∈ a.trimFront :: as, b.Legible :=
      List.forall_mem_cons.2 ⟨legible.1.trimFront, legible.2⟩
    obtain ⟨init, last, split⟩ :=
      (List.eq_nil_or_concat' (a.trimFront :: as)).resolve_left (List.cons_ne_nil _ _)
    rw [split, attributeList_back, List.head?_append] at head
    rw [split, List.forall_mem_append, List.forall_mem_singleton] at each
    obtain ⟨-, -, -, back⟩ := Gaps.isBlank_iff.1 each.2.blank
    have ending := getLast?_attributeList init last
    have head' : (attributeList (init ++ [last.trimBack])).head? = some c := by
      cases start : (attributeList (init ++ [last.trimBack])).head? with
      | none =>
        rw [List.head?_eq_none_iff.1 start] at ending
        cases ending
      | some d => rwa [start] at head
    refine ⟨init ++ [last.trimBack], ?_, ?_, fun key => ?_⟩
    · rw [attributeList_front, split, attributeList_back]
      exact trim_between front head' solid ending (by decide) back
    · rw [List.forall_mem_append, List.forall_mem_singleton]
      exact ⟨each.1, each.2.trimBack⟩
    · have pairs : (init ++ [last.trimBack]).map (fun a => (a.key, a.value)) =
          (a.trimFront :: as).map fun a => (a.key, a.value) := by
        rw [split, List.map_append, List.map_append]
        rfl
      rw [find?_eq, pairs, find?_eq]
      rfl

/-- What an argument list says for a key. -/
theorem findSome?_attributeList {as : List AttributeText} (legible : ∀ a ∈ as, a.Legible)
    (key : String) : (splitTopLevel ',' (trim (attributeList as))).findSome? (valueOf? key) =
      find? key as := by
  obtain ⟨bs, trimmed, each, found⟩ := exists_trimmed legible
  have pieces : splitTopLevel ',' (attributeList bs) = bs.map text := by
    apply splitTopLevel_joinWith rfl
    · rw [List.forall_mem_map]
      exact fun b member => (balanced_text (each b member).toWellFormed).flat
    · rw [List.forall_mem_map]
      intro b member
      rw [allBlank, List.all_eq_false]
      refine ⟨'"', ?_, by decide⟩
      simp [text, quotedText]
  rw [trimmed, pieces, findSome?_pieces each, found]

end AttributeText

/-- Whether a text is a word of ASCII letters, digits and underscores, such as an identifier. -/
def IsAsciiWord (w : List Char) : Prop :=
  w ≠ [] ∧ w.all (fun c => isAsciiAlphanumeric c || c == '_') = true

private theorem isQualifiedLetter_of_isNameChar {c : Char} (h : isNameChar c = true) :
    isQualifiedLetter c = true := by
  by_cases dot : c = '.'
  · rw [dot]
    rfl
  have other {signs : List Char} (apart : signs.all (fun d => !isNameChar d || d == '.') = true) :
      (!signs.contains c) = true := by
    rw [Bool.not_eq_true', ← Bool.not_eq_true, List.contains_iff_mem]
    intro member
    have sign := List.all_eq_true.1 apart c member
    rw [h, Bool.not_true, Bool.false_or, beq_iff_eq] at sign
    exact dot sign
  rw [isQualifiedLetter, isNameLetter, isIdentifierChar,
    (of_isDotted (isDotted_of_isNameChar h)).1, other (by decide), other (by decide)]
  exact Bool.or_true _

private theorem IsAsciiWord.not_mem {w : List Char} (h : IsAsciiWord w) : '.' ∉ w :=
  not_mem_of_all h.2 (by decide)

/-- A directive with a simple name, and the packages in front of it. -/
structure NamedDirective where
  packages : List (List Char)
  name : List Char
  /-- The blanks before the argument list, and its attributes. -/
  arguments : Option (List Char × List AttributeText)
  /-- The blanks behind the directive. -/
  gap : List Char

namespace NamedDirective

def directiveText (d : NamedDirective) : DirectiveText where
  qualified := joinWith ['.'] (d.packages ++ [d.name])
  arguments := d.arguments
  gap := d.gap

def text (d : NamedDirective) : List Char := d.directiveText.written.text

def attribute? (d : NamedDirective) (key : String) : Option String :=
  d.arguments.bind fun (_, as) => AttributeText.find? key as

structure WellFormed (d : NamedDirective) : Prop where
  packages : ∀ p ∈ d.packages, IsAsciiWord p
  name : IsAsciiWord d.name
  declares : d.name ≠ "interface".toList
  space : ∀ space as, d.arguments = some (space, as) → space.all isAsciiBlank = true
  attributes : ∀ space as, d.arguments = some (space, as) → ∀ a ∈ as, a.Legible
  gap : d.gap.all isBlank = true

variable {d : NamedDirective}

theorem lastPiece_qualified (wf : d.WellFormed) :
    lastPiece '.' d.directiveText.qualified = d.name := by
  have qualified : d.directiveText.qualified = joinWith ['.'] (d.packages ++ [d.name]) := rfl
  rw [qualified]
  by_cases unqualified : d.packages = []
  · rw [unqualified, List.nil_append, joinWith_singleton, lastPiece_of_not_mem wf.name.not_mem]
  · rw [joinWith_append _ unqualified (List.cons_ne_nil _ _), joinWith_singleton, List.append_assoc,
      List.singleton_append, lastPiece_append, lastPiece_of_not_mem wf.name.not_mem]

theorem isNameChar_qualified (wf : d.WellFormed) :
    d.directiveText.qualified.all isNameChar = true := by
  have wider (c : Char) (h : (isAsciiAlphanumeric c || c == '_') = true) : isNameChar c = true := by
    rw [isNameChar, h, Bool.true_or]
  refine all_joinWith rfl ?_
  rw [List.forall_mem_append, List.forall_mem_singleton]
  exact ⟨fun p member => all_wider wider (wf.packages p member).2, all_wider wider wf.name.2⟩

private theorem wellFormed_directiveText (wf : d.WellFormed) : d.directiveText.WellFormed where
  letters := all_wider (fun _ => isQualifiedLetter_of_isNameChar) (isNameChar_qualified wf)
  named := by
    rw [lastPiece_qualified wf]
    exact wf.name.1
  declares := by
    rw [lastPiece_qualified wf]
    exact wf.declares
  space := wf.space
  attributes space as arguments a member := (wf.attributes space as arguments a member).toWellFormed
  gap := wf.gap

/-- A directive is legible. -/
theorem legible_written (wf : d.WellFormed) : d.directiveText.written.Legible :=
  DirectiveText.legible_written (wellFormed_directiveText wf) (isNameChar_qualified wf)

private theorem argument_directive (wf : d.WellFormed) (key : String) :
    d.directiveText.written.directive.argument key = d.attribute? key := by
  rw [argument_eq, Written.directive, DirectiveText.written, attribute?]
  have same : d.directiveText.arguments = d.arguments := rfl
  rw [same]
  cases arguments : d.arguments with
  | none => rfl
  | some found =>
    obtain ⟨space, as⟩ := found
    simp only [Option.map_some, Option.bind_some, String.toList_ofList]
    exact AttributeText.findSome?_attributeList (wf.attributes space as arguments) key

end NamedDirective

def directiveList (ds : List NamedDirective) : List Char := ds.flatMap fun d => d.text ++ d.gap

/-- Directives are read as they were written, with their simple names, their texts and the texts of
their attributes. -/
theorem directives_directiveList {front : List Char} {ds : List NamedDirective}
    (blank : front.all isBlank = true) (wf : ∀ d ∈ ds, d.WellFormed) :
    (directives (front ++ directiveList ds)).map (·.name) =
        ds.map (fun d => String.ofList d.name) ∧
      (directives (front ++ directiveList ds)).map (·.raw) =
        ds.map (fun d => String.ofList d.text) ∧
      ∀ key, (directives (front ++ directiveList ds)).map (·.argument key) =
        ds.map fun d => d.attribute? key := by
  have text : directiveList ds = leadText (ds.map fun d => d.directiveText.written) := by
    rw [directiveList, leadText, List.flatMap_map]
    rfl
  have legible : ∀ w ∈ ds.map fun d => d.directiveText.written, w.Legible :=
    List.forall_mem_map.2 fun d member => NamedDirective.legible_written (wf d member)
  have gaps : ∀ w ∈ ds.map fun d => d.directiveText.written, w.gap.all isBlank = true :=
    List.forall_mem_map.2 fun d member => (wf d member).gap
  have read : directives (front ++ directiveList ds) =
      ds.map fun d => d.directiveText.written.directive := by
    have bare : Bare [] := by
      rintro ⟨⟩
    have found := (scan_leadText legible gaps bare fun _ _ _ _ => rfl).1
    rw [List.append_nil, directives_nil, List.append_nil, List.map_map] at found
    rw [(scan_plain (plain_of_isBlank blank) _).1, text, found]
    rfl
  rw [read, List.map_map, List.map_map]
  refine ⟨List.map_congr_left fun d member => ?_, rfl, fun key => ?_⟩
  · exact congrArg String.ofList (NamedDirective.lastPiece_qualified (wf d member))
  · rw [List.map_map]
    exact List.map_congr_left fun d member => NamedDirective.argument_directive (wf d member) key

def validDirective : NamedDirective where
  packages := []
  name := "Valid".toList
  arguments := none
  gap := ['\n', ' ']

/-- A qualified directive with signs in its texts, and a key that comes back. -/
def sizeDirective : NamedDirective where
  packages := ["api".toList, "core".toList]
  name := "Size".toList
  arguments := some ([' '], [
    ⟨⟨[' '], [' '], [' '], []⟩, "text".toList, "a, (b) = '@Other('".toList⟩,
    ⟨⟨[' '], [], [], []⟩, "unit".toList, []⟩,
    ⟨⟨[], [], [], [' ']⟩, "text".toList, "c".toList⟩])
  gap := []

private theorem wellFormed_validDirective : validDirective.WellFormed where
  packages := nofun
  name := ⟨by decide, by decide⟩
  declares := by decide
  space := nofun
  attributes := nofun
  gap := rfl

private theorem wellFormed_sizeDirective : sizeDirective.WellFormed where
  packages := by
    simp only [sizeDirective, List.forall_mem_cons, List.not_mem_nil, false_implies, implies_true,
      and_true]
    exact ⟨⟨by decide, by decide⟩, ⟨by decide, by decide⟩⟩
  name := ⟨by decide, by decide⟩
  declares := by decide
  space := by
    rintro _ _ ⟨⟩
    rfl
  attributes := by
    rintro _ _ ⟨⟩
    simp only [List.forall_mem_cons, List.not_mem_nil, false_implies, implies_true, and_true]
    refine ⟨⟨⟨rfl, ?_, ?_, ?_⟩, ?_⟩, ⟨⟨rfl, ?_, ?_, ?_⟩, ?_⟩, ⟨⟨rfl, ?_, ?_, ?_⟩, ?_⟩⟩ <;> decide
  gap := rfl

theorem directives_validAndSize :
    let written := "@Valid\n @api.core.Size ( text = \"a, (b) = '@Other('\", unit=\"\",text=\"c\" )"
    (∀ d ∈ [validDirective, sizeDirective], d.WellFormed) ∧
    directiveList [validDirective, sizeDirective] = written.toList ∧
    (directives written.toList).map (·.name) = ["Valid", "Size"] ∧
    (directives written.toList).map (·.argument "text") = [none, some "a, (b) = '@Other('"] ∧
    (directives written.toList).map (·.argument "unit") = [none, some ""] ∧
    (directives written.toList).map (·.argument "other") = [none, none] := by
  intro written
  have wf : ∀ d ∈ [validDirective, sizeDirective], d.WellFormed := by
    rw [List.forall_mem_cons, List.forall_mem_singleton]
    exact ⟨wellFormed_validDirective, wellFormed_sizeDirective⟩
  have text : directiveList [validDirective, sizeDirective] = written.toList := by
    decide +kernel
  obtain ⟨names, -, texts⟩ := @directives_directiveList [] _ rfl wf
  rw [List.nil_append, text] at names texts
  refine ⟨wf, text, names.trans ?_, (texts "text").trans ?_, (texts "unit").trans ?_,
    (texts "other").trans ?_⟩ <;> decide +kernel

end ApiCollection.Java
