import ApiCollection.Proofs.DeclaredFields
import ApiCollection.Proofs.RecordComponents
import ApiCollection.Proofs.Signatures

/-!
# Field declarations

A declaration gives access to a field, with modifiers in any order, a type and a name. It is read as
it is written, up to its semicolon or its equals sign, whatever stands behind.
-/

namespace ApiCollection

open Text Java

/-- The words that may stand between the access modifier and the type of a field. -/
def Dto.fieldModifiers : List String := ["static", "final"]

/-- The declaration of a field, with the blanks between its parts. -/
structure FieldDeclaration where
  access : String
  space : List Char
  modifiers : List (String × List Char)
  type : ReturnType
  gap : List Char
  name : List Char
  trail : List Char
  initialiser : Option (List Char)

namespace FieldDeclaration

def sign (f : FieldDeclaration) : Char := if f.initialiser.isSome then '=' else ';'

def behind (f : FieldDeclaration) : List Char := f.initialiser.elim [] (· ++ [';'])

def body (f : FieldDeclaration) : List Char :=
  f.type.text ++ (f.gap ++ (f.name ++ (f.trail ++ f.sign :: f.behind)))

def text (f : FieldDeclaration) : List Char :=
  f.access.toList ++ (f.space ++ (modifierText f.modifiers ++ f.body))

def declared (f : FieldDeclaration) : Dto.Declared :=
  ⟨f.modifiers.any fun m => m.1 == "static", f.type.text, f.name⟩

/-- A declaration is well-formed when its parts are what they are called, with blanks between
them. -/
structure WellFormed (f : FieldDeclaration) : Prop where
  access : f.access ∈ Dto.accessModifiers
  space : f.space.all isBlank = true
  spaced : f.space ≠ []
  modifiers : f.modifiers.map Prod.fst ∈
    [[], ["static"], ["final"], ["static", "final"], ["final", "static"]]
  gaps : ∀ m ∈ f.modifiers, m.2.all isBlank = true ∧ m.2 ≠ []
  type : f.type.WellFormed
  /-- Modifiers are no types. -/
  typed : String.ofList f.type.base ∉ Dto.fieldModifiers
  gap : f.gap.all isBlank = true
  apart : f.gap ≠ []
  name : f.name.all isWordChar = true
  named : f.name ≠ []
  trail : f.trail.all isBlank = true

end FieldDeclaration

instance (t : ReturnType) : Decidable t.WellFormed :=
  decidable_of_iff
    (_ ∧ _ ∧ ∀ inside ∈ t.arguments, inside.all (fun c => !Java.endsArguments c) = true)
    ⟨fun ⟨a, b, c⟩ => ⟨a, b, c⟩, fun ⟨a, b, c⟩ => ⟨a, b, c⟩⟩

instance (f : FieldDeclaration) : Decidable f.WellFormed :=
  decidable_of_iff (_ ∧ _ ∧ _ ∧ _ ∧ _ ∧ _ ∧ _ ∧ _ ∧ _ ∧ _ ∧ _ ∧ _)
    ⟨fun ⟨a, b, c, d, e, f, g, h, i, j, k, l⟩ => ⟨a, b, c, d, e, f, g, h, i, j, k, l⟩,
      fun ⟨a, b, c, d, e, f, g, h, i, j, k, l⟩ => ⟨a, b, c, d, e, f, g, h, i, j, k, l⟩⟩

namespace Dto

def typeEnds (cs : List Char) : List (List Char) :=
  match afterChar? '<' cs with
  | none => [cs]
  | some inside => argumentEnds inside

theorem declaredBehind?_eq (cs start : List Char) : declaredBehind? cs start =
    (dottedWord? start).bind fun found =>
      (typeEnds found.2).findSome? (nameBehind? (textBefore cs start) start) := rfl

/-- A whole word that is no keyword is not read as one. -/
theorem keyword?_other {keywords : List String} (words : AreWords keywords) {word rest : List Char}
    (letters : word.all isWordChar = true) (other : String.ofList word ∉ keywords)
    (ends : rest.head?.any isWordChar = false) : keyword? keywords (word ++ rest) = none := by
  rw [keyword?_eq words, List.takeWhile_append_of_pos (List.all_eq_true.1 letters),
    takeWhile_of_head? ends, List.append_nil, if_neg other]

/-- A name with dots is not read as a keyword that it is not. -/
theorem keyword?_dotted {keywords : List String} (words : AreWords keywords)
    {base rest : List Char} (dotted : base.all isDotted = true)
    (other : String.ofList base ∉ keywords) (ends : rest.head?.any isDotted = false) :
    keyword? keywords (base ++ rest) = none := by
  by_cases letters : base.all isWordChar = true
  · apply keyword?_other words letters other
    cases head : rest.head? with
    | none => rfl
    | some c =>
      rw [head, Option.any_some, isDotted, Bool.or_eq_false_iff] at ends
      exact ends.1
  · -- behind the first part of the name stands a dot
    have part : base.dropWhile isWordChar ≠ [] := fun whole =>
      letters (List.all_eq_true.2 (List.dropWhile_eq_nil_iff.1 whole))
    obtain ⟨c, left, split⟩ := List.exists_cons_of_ne_nil part
    have member : c ∈ base := (List.dropWhile_suffix isWordChar).mem (split ▸ List.mem_cons_self)
    have solid := isBlank_of_isDotted (List.all_eq_true.1 dotted c member)
    have apart : afterBlanks? ((base ++ rest).dropWhile isWordChar) = none := by
      rw [List.dropWhile_append, split]
      exact if_neg (by simpa using solid)
    rw [keyword?_eq words, apart]
    exact ite_self _

/-- A name with blanks behind it is a keyword, or none is read. -/
theorem keyword?_name {keywords : List String} (words : AreWords keywords)
    {name gap rest : List Char} (dotted : name.all isDotted = true) (blank : gap.all isBlank = true)
    (apart : gap ≠ []) (begins : rest.head?.any isBlank = false) :
    keyword? keywords (name ++ (gap ++ rest)) =
      if String.ofList name ∈ keywords then some (String.ofList name, rest) else none := by
  split
  · rename_i member
    have read := keyword?_append words member blank apart begins
    rwa [String.toList_ofList] at read
  · rename_i other
    apply keyword?_dotted words dotted other
    exact head?_any_apart blank apart (fun _ => isDotted_of_isBlank) rest

theorem maybeKeyword_of_none {keyword : String} {cs : List Char}
    (h : keyword? [keyword] cs = none) : maybeKeyword keyword cs = [cs] := by
  rw [maybeKeyword, h]

theorem areWords_accessModifiers : AreWords accessModifiers := by decide

theorem areWords_fieldModifiers : ∀ keyword ∈ fieldModifiers, AreWords [keyword] := by decide

/-- A modifier is skipped with the blanks behind it where it is asked for, and stays elsewhere. -/
theorem head?_maybeKeyword {keyword word : String} (asked : keyword ∈ fieldModifiers)
    (member : word ∈ fieldModifiers) {gap rest : List Char} (blank : gap.all isBlank = true)
    (apart : gap ≠ []) (begins : rest.head?.any isBlank = false) :
    (maybeKeyword keyword (word.toList ++ (gap ++ rest))).head? =
      some (if keyword = word then rest else word.toList ++ (gap ++ rest)) := by
  have letters := (areWords_fieldModifiers word member word (List.mem_singleton_self _)).1
  rw [maybeKeyword, keyword?_name (areWords_fieldModifiers keyword asked)
    (all_wider (fun _ => isDotted_of_isWordChar) letters) blank apart begins, String.ofList_toList]
  by_cases same : keyword = word
  · rw [if_pos (List.mem_singleton.2 same.symm), if_pos same]
    rfl
  · rw [if_neg fun known => same (List.mem_singleton.1 known).symm, if_neg same]
    rfl

private theorem head?_modifierEnds {a b c d : List Char}
    (first : (maybeKeyword "static" a).head? = some b)
    (second : (maybeKeyword "final" b).head? = some c)
    (third : (maybeKeyword "static" c).head? = some d) : (modifierEnds a).head? = some d := by
  obtain ⟨more, first⟩ := List.head?_eq_some_iff.1 first
  obtain ⟨more', second⟩ := List.head?_eq_some_iff.1 second
  obtain ⟨more'', third⟩ := List.head?_eq_some_iff.1 third
  rw [modifierEnds, first, List.flatMap_cons, second, List.flatMap_cons, third]
  rfl

theorem head?_any_append {p : Char → Bool} {cs : List Char} (h : cs.head?.any p = true)
    (rest : List Char) : (cs ++ rest).head?.any p = true := by
  cases cs with
  | nil => cases h
  | cons c cs => exact h

theorem head?_any_of_dotted {p : Char → Bool} (other : ∀ c, isDotted c = true → p c = false)
    {cs : List Char} (h : cs.head?.any isDotted = true) : cs.head?.any p = false := by
  obtain ⟨c, head, dotted⟩ := (Option.any_eq_true _ _).1 h
  rw [head]
  exact other c dotted

theorem unblank_of_dotted {cs : List Char} (h : cs.head?.any isDotted = true) :
    cs.head?.any isBlank = false := head?_any_of_dotted (fun _ => isBlank_of_isDotted) h

/-- A text that begins with a name does not begin, behind blanks, with anything else. -/
theorem head?_trimStart_of_dotted {p : Char → Bool} (other : ∀ c, isDotted c = true → p c = false)
    {cs : List Char} (h : cs.head?.any isDotted = true) : (trimStart cs).head?.any p = false := by
  rw [trimStart_of_head? (unblank_of_dotted h)]
  exact head?_any_of_dotted other h

theorem skipSuffixes_replicate (n : Nat) {rest : List Char} (h : rest.head? ≠ some '[') :
    skipSuffixes ((List.replicate n "[]".toList).flatten ++ rest) = rest := by
  induction n with
  | zero =>
    cases rest with
    | nil => rfl
    | cons c rest =>
      rw [List.replicate_zero, List.flatten_nil, List.nil_append, skipSuffixes]
      rintro rest' ⟨⟩
      exact h rfl
  | succ n ih =>
    rw [List.replicate_succ, List.flatten_cons, List.append_assoc]
    exact ih

end Dto

namespace FieldDeclaration

variable {f : FieldDeclaration} (wf : f.WellFormed) (rest : List Char)

def behindType (f : FieldDeclaration) (rest : List Char) : List Char :=
  f.gap ++ (f.name ++ (f.trail ++ f.sign :: (f.behind ++ rest)))

def behindArguments (f : FieldDeclaration) (rest : List Char) : List Char :=
  (List.replicate f.type.arrays "[]".toList).flatten ++ f.behindType rest

def behindAccess (f : FieldDeclaration) (rest : List Char) : List Char :=
  modifierText f.modifiers ++ (f.body ++ rest)

theorem text_eq (f : FieldDeclaration) (rest : List Char) :
    f.text ++ rest = f.access.toList ++ (f.space ++ f.behindAccess rest) := by
  simp [text, behindAccess]

theorem body_append (f : FieldDeclaration) (rest : List Char) :
    f.body ++ rest = f.type.text ++ f.behindType rest := by
  simp [body, behindType]

theorem body_eq (f : FieldDeclaration) (rest : List Char) : f.body ++ rest = f.type.base ++
    (f.type.arguments.elim [] (fun inside => '<' :: (inside ++ ['>'])) ++
      f.behindArguments rest) := by
  simp [body_append, behindArguments, ReturnType.text]

theorem sign_cases (f : FieldDeclaration) : f.sign = ';' ∨ f.sign = '=' := by
  rw [sign]
  split
  · exact .inr rfl
  · exact .inl rfl

/-- The sign is none of the characters that the parts of a declaration are made of. -/
theorem sign_facts (f : FieldDeclaration) : isBlank f.sign = false ∧ isWordChar f.sign = false ∧
    Java.endsArguments f.sign = true := by
  obtain sign | sign := f.sign_cases <;> rw [sign] <;> decide

include wf

theorem head?_behindType : ∃ c, (f.behindType rest).head? = some c ∧ isBlank c = true := by
  obtain ⟨c, gap, split⟩ := List.exists_cons_of_ne_nil wf.apart
  have blank := wf.gap
  rw [split, List.all_cons, Bool.and_eq_true] at blank
  exact ⟨c, by rw [behindType, split]; rfl, blank.1⟩

theorem head?_behindArguments :
    ∃ c, (f.behindArguments rest).head? = some c ∧ isDotted c = false ∧ c ≠ '<' := by
  rw [behindArguments]
  cases f.type.arrays with
  | zero =>
    obtain ⟨c, head, blank⟩ := head?_behindType wf rest
    refine ⟨c, head, isDotted_of_isBlank blank, ?_⟩
    rintro rfl
    exact absurd blank (by decide)
  | succ n => exact ⟨'[', rfl, by decide⟩

private theorem argumentEnds_behindArguments : argumentEnds (f.behindArguments rest) = [] := by
  have text : f.behindArguments rest = ((List.replicate f.type.arrays "[]".toList).flatten ++
      (f.gap ++ (f.name ++ f.trail))) ++ f.sign :: (f.behind ++ rest) := by
    simp [behindArguments, behindType]
  rw [text]
  refine argumentEnds_before f.sign_facts.2.2 ?_ _
  simp only [List.mem_append, not_or]
  exact ⟨fun member => absurd (mem_arrays member) (by decide), not_mem_of_all wf.gap (by decide),
    not_mem_of_all wf.name (by decide), not_mem_of_all wf.trail (by decide)⟩

private theorem nameBehind?_behindArguments (modifiers start : List Char) :
    Dto.nameBehind? modifiers (start ++ f.behindType rest) (f.behindArguments rest) =
      some (⟨occursIn "static".toList modifiers, start, f.name⟩, f.behind ++ rest) := by
  obtain ⟨c, head, blank⟩ := head?_behindType wf rest
  obtain ⟨unblank, unword, -⟩ := f.sign_facts
  have bracket : (f.behindType rest).head? ≠ some '[' := by
    rw [head]
    rintro ⟨⟩
    exact absurd blank (by decide)
  have begins :
      (f.name ++ (f.trail ++ f.sign :: (f.behind ++ rest))).head?.any isBlank = false := by
    obtain ⟨c, name, split⟩ := List.exists_cons_of_ne_nil wf.named
    have letters := wf.name
    rw [split, List.all_cons, Bool.and_eq_true] at letters
    rw [split]
    exact isBlank_of_isWordChar letters.1
  have ends : (f.trail ++ f.sign :: (f.behind ++ rest)).head?.any isWordChar = false :=
    head?_any_blanks wf.trail (fun _ blank => (of_isBlank blank).1) fun _ => unword
  have sign : trimStart (f.trail ++ f.sign :: (f.behind ++ rest)) = f.sign :: (f.behind ++ rest) :=
    trimStart_blanks wf.trail unblank
  have name : word? (f.name ++ (f.trail ++ f.sign :: (f.behind ++ rest))) =
      some (f.name, f.trail ++ f.sign :: (f.behind ++ rest)) :=
    run?_append wf.name wf.named ends
  have gap : afterBlanks? (f.behindType rest) = some _ :=
    afterBlanks?_eq_some wf.gap wf.apart begins
  rw [Dto.nameBehind?, behindArguments, Dto.skipSuffixes_replicate _ bracket, gap]
  simp only [Option.bind_eq_bind, Option.bind_some, name, sign, textBefore_append_self]
  obtain sign | sign := f.sign_cases <;> rw [sign] <;> rfl

/-- The arguments of the type are read up to the last angle bracket. -/
theorem typeEnds_body : ∃ left more, f.body ++ rest = f.type.base ++ left ∧
    left.head?.any isDotted = false ∧ Dto.typeEnds left = f.behindArguments rest :: more := by
  rw [body_eq]
  cases arguments : f.type.arguments with
  | none =>
    obtain ⟨c, head, undotted, angle⟩ := head?_behindArguments wf rest
    have none : afterChar? '<' (f.behindArguments rest) = none :=
      afterChar?_of_head? (by simpa [head] using angle)
    refine ⟨_, [], rfl, by simpa [head] using undotted, ?_⟩
    rw [Dto.typeEnds, Option.elim_none, List.nil_append, none]
  | some inside =>
    obtain ⟨more, ends⟩ := argumentEnds_inside (wf.type.arguments inside arguments)
      (argumentEnds_behindArguments wf rest)
    refine ⟨_, more, rfl, rfl, ?_⟩
    rw [← ends]
    simp [Dto.typeEnds, afterChar?]

private theorem declaredBehind?_body (cs : List Char) : Dto.declaredBehind? cs (f.body ++ rest) =
    some (⟨occursIn "static".toList (textBefore cs (f.body ++ rest)), f.type.text, f.name⟩,
      f.behind ++ rest) := by
  have found := nameBehind?_behindArguments wf rest (textBefore cs (f.body ++ rest)) f.type.text
  rw [← body_append] at found
  obtain ⟨left, more, text, undotted, ends⟩ := typeEnds_body wf rest
  have base : dottedWord? (f.body ++ rest) = some (f.type.base, left) := by
    rw [text]
    exact run?_append wf.type.characters wf.type.nonempty undotted
  rw [Dto.declaredBehind?_eq, base, Option.bind_some, ends, List.findSome?_cons, found]

private theorem head?_maybeKeyword_body {keyword : String} (asked : keyword ∈ Dto.fieldModifiers) :
    (Dto.maybeKeyword keyword (f.body ++ rest)).head? = some (f.body ++ rest) := by
  obtain ⟨left, more, text, undotted, -⟩ := typeEnds_body wf rest
  have other : String.ofList f.type.base ∉ [keyword] := by
    intro same
    exact wf.typed (List.mem_singleton.1 same ▸ asked)
  rw [text, Dto.maybeKeyword_of_none (Dto.keyword?_dotted
    (Dto.areWords_fieldModifiers keyword asked) wf.type.characters other undotted)]
  rfl

theorem head?_body : (f.body ++ rest).head?.any isDotted = true := by
  obtain ⟨c, base, split⟩ := List.exists_cons_of_ne_nil wf.type.nonempty
  have dotted := wf.type.characters
  rw [split, List.all_cons, Bool.and_eq_true] at dotted
  rw [body_eq, split]
  exact dotted.1

/-- The texts behind the modifiers begin with the one behind all of them. -/
theorem head?_modifierEnds_text :
    (Dto.modifierEnds (modifierText f.modifiers ++ (f.body ++ rest))).head? =
      some (f.body ++ rest) := by
  have static : "static" ∈ Dto.fieldModifiers := by decide
  have final : "final" ∈ Dto.fieldModifiers := by decide
  have begins := Dto.unblank_of_dotted (head?_body wf rest)
  have noStatic := head?_maybeKeyword_body wf rest static
  have noFinal := head?_maybeKeyword_body wf rest final
  have listed := wf.modifiers
  have gaps := wf.gaps
  generalize f.body ++ rest = behind at begins noStatic noFinal
  generalize f.modifiers = ms at listed gaps
  simp only [List.mem_cons, List.not_mem_nil, or_false, List.map_eq_nil_iff,
    List.map_eq_cons_iff] at listed
  have text (w : String) (g : List Char) (ms : List (String × List Char)) :
      modifierText ((w, g) :: ms) ++ behind = w.toList ++ (g ++ (modifierText ms ++ behind)) := by
    simp [modifierText]
  have skip {k w : String} (asked : k ∈ Dto.fieldModifiers) (member : w ∈ Dto.fieldModifiers)
      {g rest : List Char} (gap : g.all isBlank = true ∧ g ≠ [])
      (begins : rest.head?.any isBlank = false) :=
    Dto.head?_maybeKeyword asked member gap.1 gap.2 begins
  obtain rfl | ⟨⟨_, g⟩, _, rfl, rfl, rfl⟩ | ⟨⟨_, g⟩, _, rfl, rfl, rfl⟩ |
    ⟨⟨_, g⟩, _, rfl, rfl, ⟨_, h⟩, _, rfl, rfl, rfl⟩ |
    ⟨⟨_, g⟩, _, rfl, rfl, ⟨_, h⟩, _, rfl, rfl, rfl⟩ := listed
  · exact Dto.head?_modifierEnds noStatic noFinal noStatic
  · rw [List.forall_mem_singleton] at gaps
    rw [text]
    exact Dto.head?_modifierEnds (skip static static gaps begins) noFinal noStatic
  · rw [List.forall_mem_singleton] at gaps
    rw [text]
    exact Dto.head?_modifierEnds (skip static final gaps begins) (skip final final gaps begins)
      noStatic
  · rw [List.forall_mem_cons, List.forall_mem_singleton] at gaps
    rw [text, text]
    exact Dto.head?_modifierEnds (skip static static gaps.1 rfl) (skip final final gaps.2 begins)
      noStatic
  · rw [List.forall_mem_cons, List.forall_mem_singleton] at gaps
    rw [text, text]
    exact Dto.head?_modifierEnds (skip static final gaps.1 rfl) (skip final final gaps.1 rfl)
      (skip static static gaps.2 begins)

theorem mem_modifiers {m : String × List Char} (h : m ∈ f.modifiers) :
    m.1 ∈ Dto.fieldModifiers := by
  have known : ∀ words ∈ [[], ["static"], ["final"], ["static", "final"], ["final", "static"]],
      ∀ word ∈ words, word ∈ Dto.fieldModifiers := by decide
  exact known _ wf.modifiers m.1 (List.mem_map_of_mem h)

/-- Modifiers begin with a letter, and so does what stands behind them. -/
theorem head?_modifierText {ms : List (String × List Char)}
    (known : ∀ m ∈ ms, m.1 ∈ Dto.fieldModifiers) :
    (modifierText ms ++ (f.body ++ rest)).head?.any isDotted = true := by
  cases ms with
  | nil => exact head?_body wf rest
  | cons m ms =>
    have letters : ∀ word ∈ Dto.fieldModifiers, word.toList.head?.any isDotted = true := by decide
    rw [modifierText, List.flatMap_cons, List.append_assoc, List.append_assoc]
    exact Dto.head?_any_append (letters m.1 (known m List.mem_cons_self)) _

theorem head?_behindAccess : (f.behindAccess rest).head?.any isDotted = true :=
  head?_modifierText wf rest fun _ => mem_modifiers wf

theorem head?_text : (f.text ++ rest).head?.any isDotted = true := by
  have letters : ∀ word ∈ Dto.accessModifiers, word.toList.head?.any isDotted = true := by decide
  rw [text_eq]
  exact Dto.head?_any_append (letters f.access wf.access) _

/-- The text of the modifiers says whether a field is static. -/
theorem occursIn_modifierText :
    occursIn "static".toList (modifierText f.modifiers) = f.declared.static := by
  rw [Bool.eq_iff_iff, occursIn_iff, declared, List.any_eq_true]
  constructor
  · intro occurs
    by_contra none
    have letter : 's' ∈ modifierText f.modifiers := occurs.subset (by decide)
    obtain ⟨m, member, inside⟩ := List.mem_flatMap.1 letter
    have known : ∀ word ∈ Dto.fieldModifiers, word = "static" ∨ 's' ∉ word.toList := by decide
    obtain static | other := known m.1 (mem_modifiers wf member)
    · exact none ⟨m, member, beq_iff_eq.2 static⟩
    · obtain letter | blank := List.mem_append.1 inside
      · exact other letter
      · exact not_mem_of_all (wf.gaps m member).1 (by decide) blank
  · rintro ⟨⟨word, gap⟩, member, static⟩
    obtain rfl := beq_iff_eq.1 static
    obtain ⟨front, back, split⟩ := List.append_of_mem member
    refine ⟨modifierText front, gap ++ modifierText back, ?_⟩
    rw [split]
    simp [modifierText]

/-- A declaration is read up to the character behind its name. -/
theorem declared?_text : Dto.declared? (f.text ++ rest) = some (f.declared, f.behind ++ rest) := by
  have access := keyword?_append Dto.areWords_accessModifiers wf.access wf.space wf.spaced
    (Dto.unblank_of_dotted (head?_behindAccess wf rest))
  obtain ⟨more, ends⟩ := List.head?_eq_some_iff.1 (head?_modifierEnds_text wf rest)
  rw [text_eq, Dto.declared?, access]
  simp only [Option.bind_eq_bind, Option.bind_some]
  rw [behindAccess, ends, List.findSome?_cons, declaredBehind?_body wf, textBefore_append_self,
    occursIn_modifierText wf]
  rfl

end FieldDeclaration

end ApiCollection
