import ApiCollection.Proofs.FieldDeclarations

/-!
# Sweeping for field declarations

No part of a field declaration goes beyond a character that type arguments cannot hold. A sweep
therefore finds in a class what it finds in its directives and its initialisers and what its members
declare.
-/

namespace ApiCollection

open Text Java

namespace Dto

/-- What the readers ask about a mark, which is a character that type arguments cannot hold. -/
structure MarkFacts (c : Char) : Prop where
  blank : isBlank c = false
  word : isWordChar c = false
  dotted : isDotted c = false
  angle : c ≠ '<'
  suffix : c ≠ '[' ∧ c ≠ ']'

theorem markFacts {c : Char} (h : endsArguments c = true) : MarkFacts c := by
  have cases : c = ';' ∨ c = '\x7b' ∨ c = '\x7d' ∨ c = '(' ∨ c = ')' ∨ c = '=' := by
    simpa [endsArguments, endsTypeParameters, or_assoc] using h
  obtain rfl | rfl | rfl | rfl | rfl | rfl := cases <;> constructor <;> decide

theorem keyword?_stop {keywords : List String} (words : AreWords keywords) {b : Char}
    (word : isWordChar b = false) (blank : isBlank b = false) (t rest : List Char) :
    keyword? keywords (t ++ b :: rest) =
      (keyword? keywords t).map fun (w, r) => (w, r ++ b :: rest) := by
  rw [keyword?_eq words, keyword?_eq words, takeWhile_stop word, dropWhile_stop word,
    afterBlanks?_stop blank]
  split
  · rw [Option.map_map, Option.map_map]
    rfl
  · rfl

def extend (tail : List Char) (found : Declared × List Char) : Declared × List Char :=
  (found.1, found.2 ++ tail)

section Mark

variable {b : Char} (mark : endsArguments b = true) (rest : List Char)

include mark

private theorem maybeKeyword_mark {keyword : String} (words : AreWords [keyword]) (t : List Char) :
    maybeKeyword keyword (t ++ b :: rest) = (maybeKeyword keyword t).map (· ++ b :: rest) := by
  have facts := markFacts mark
  rw [maybeKeyword, maybeKeyword, keyword?_stop words facts.word facts.blank]
  cases keyword? [keyword] t <;> rfl

private theorem modifierEnds_mark (t : List Char) :
    modifierEnds (t ++ b :: rest) = (modifierEnds t).map (· ++ b :: rest) := by
  have static := maybeKeyword_mark mark rest (areWords_fieldModifiers "static" (by decide))
  have final := maybeKeyword_mark mark rest (areWords_fieldModifiers "final" (by decide))
  simp only [modifierEnds, static, final, List.flatMap_map, List.map_flatMap]

private theorem skipSuffixes_mark (t : List Char) :
    skipSuffixes (t ++ b :: rest) = skipSuffixes t ++ b :: rest := by
  have facts := (markFacts mark).suffix
  fun_induction skipSuffixes t with
  | case1 t ih => exact ih
  | case2 t other =>
    rw [skipSuffixes]
    intro left same
    obtain _ | ⟨c, _ | ⟨d, t⟩⟩ := t
    · exact facts.1 (List.cons.inj same).1
    · exact facts.2 (List.cons.inj (List.cons.inj same).2).1
    · obtain ⟨rfl, behind⟩ := List.cons.inj same
      obtain ⟨rfl, -⟩ := List.cons.inj behind
      exact other t rfl

private theorem typeEnds_mark (t : List Char) :
    typeEnds (t ++ b :: rest) = (typeEnds t).map (· ++ b :: rest) := by
  rw [typeEnds, typeEnds, afterChar?_stop (markFacts mark).angle]
  cases afterChar? '<' t with
  | none => rfl
  | some inside =>
    dsimp only [Option.map_some]
    rw [argumentEnds_stop mark]

/-- A declaration ends with the mark at the latest. -/
theorem nameBehind?_mark (modifiers start t : List Char) :
    nameBehind? modifiers (start ++ b :: rest) (t ++ b :: rest) =
      (nameBehind? modifiers (start ++ [b]) (t ++ [b])).map (extend rest) := by
  have facts := markFacts mark
  simp only [nameBehind?, skipSuffixes_mark mark, afterBlanks?_stop facts.blank,
    textBefore_append]
  cases afterBlanks? (skipSuffixes t) with
  | none => rfl
  | some r =>
    simp only [Option.map_some, Option.bind_eq_bind, Option.bind_some, word?_stop facts.word]
    cases word? r with
    | none => rfl
    | some found =>
      obtain ⟨name, r⟩ := found
      simp only [Option.map_some, Option.bind_some, trimStart, dropWhile_stop facts.blank]
      cases r.dropWhile isBlank with
      | nil =>
        dsimp only [List.nil_append]
        split <;> rfl
      | cons c left =>
        dsimp only [List.cons_append]
        split <;> simp [extend]

private theorem declaredBehind?_mark (cs start : List Char) :
    declaredBehind? (cs ++ b :: rest) (start ++ b :: rest) =
      (declaredBehind? (cs ++ [b]) (start ++ [b])).map (extend rest) := by
  have dotted := (markFacts mark).dotted
  simp only [declaredBehind?_eq, dottedWord?_stop dotted, textBefore_append]
  cases dottedWord? start with
  | none => rfl
  | some found =>
    simp only [Option.map_some, Option.bind_some, typeEnds_mark mark, List.findSome?_map,
      List.map_findSome?]
    exact findSome?_congr fun t _ => nameBehind?_mark mark rest _ start t

private theorem declared?_mark (t : List Char) :
    declared? (t ++ b :: rest) = (declared? (t ++ [b])).map (extend rest) := by
  have facts := markFacts mark
  simp only [declared?, keyword?_stop areWords_accessModifiers facts.word facts.blank]
  cases keyword? accessModifiers t with
  | none => rfl
  | some found =>
    simp only [Option.map_some, Option.bind_eq_bind, Option.bind_some, modifierEnds_mark mark,
      List.findSome?_map, List.map_findSome?]
    exact findSome?_congr fun start _ => declaredBehind?_mark mark rest found.2 start

end Mark

/-- The field declarations of a text, from left to right. -/
def declarations (cs : List Char) : List Declared := sweep (fun _ cs => declared? cs) cs

theorem declarations_nil : declarations [] = [] := by rw [declarations, sweep, sweepFrom]

theorem sweepFrom_eq_declarations (prev : Option Char) (cs : List Char) :
    sweepFrom (fun _ cs => declared? cs) prev cs = declarations cs := by
  cases cs with
  | nil => rw [declarations, sweep, sweepFrom, sweepFrom]
  | cons c cs => rw [declarations, sweep, sweepFrom, sweepFrom]

theorem declarations_of_none {c : Char} {cs : List Char} (none : declared? (c :: cs) = none) :
    declarations (c :: cs) = declarations cs := by
  rw [declarations, sweep, sweepFrom, none]
  exact sweepFrom_eq_declarations _ _

/-- Behind a declaration a shorter end of the text is left. -/
theorem left_of_declared? {cs rest : List Char} {d : Declared}
    (h : declared? cs = some (d, rest)) : rest <:+ cs ∧ rest.length < cs.length := by
  obtain ⟨s, suffix, ended⟩ := ended_of_declared? h
  obtain ⟨behind, c, word, trimmed, -⟩ := id ended
  have left := (suffix_trimStart behind).trans ((suffix_word? word).trans suffix)
  rw [trimmed] at left
  exact ⟨ended.suffix.trans suffix, left.length_le⟩

theorem declarations_of_some {cs rest : List Char} {d : Declared}
    (h : declared? cs = some (d, rest)) : declarations cs = d :: declarations rest := by
  have shorter := (left_of_declared? h).2
  cases cs with
  | nil => cases shorter
  | cons c cs =>
    rw [declarations, sweep, sweepFrom, h]
    dsimp only
    rw [if_pos (Nat.le_of_lt_succ shorter)]
    exact congrArg _ (sweepFrom_eq_declarations _ _)

/-- Nothing is declared where nothing begins. -/
theorem declarations_append_of_none {t rest : List Char}
    (none : ∀ s, s <:+ t → s ≠ [] → declared? (s ++ rest) = none) :
    declarations (t ++ rest) = declarations rest := by
  induction t with
  | nil => rfl
  | cons c t ih =>
    have here : declared? (c :: (t ++ rest)) = _ := none (c :: t) (List.suffix_refl _) nofun
    rw [List.cons_append, declarations_of_none here]
    exact ih fun s suffix => none s (suffix.trans (List.suffix_cons c t))

theorem declared?_of_keyword? {cs : List Char} (none : keyword? accessModifiers cs = none) :
    declared? cs = Option.none := by
  rw [declared?, none]
  rfl

theorem keyword?_unword {keywords : List String} (words : AreWords keywords) {cs : List Char}
    (h : cs.head?.any isWordChar = false) : keyword? keywords cs = none := by
  rw [keyword?_eq words, takeWhile_of_head? h]
  refine if_neg fun member => ?_
  exact (words _ member).2 rfl

theorem declarations_unword {c : Char} {cs : List Char} (h : isWordChar c = false) :
    declarations (c :: cs) = declarations cs :=
  declarations_of_none (declared?_of_keyword? (keyword?_unword areWords_accessModifiers h))

/-- A mark parts what is declared up to it from what is declared behind it. -/
theorem declarations_mark {b : Char} (mark : endsArguments b = true) (t rest : List Char) :
    declarations (t ++ b :: rest) = declarations (t ++ [b]) ++ declarations rest := by
  induction hn : t.length using Nat.strongRecOn generalizing t with
  | ind n ih =>
    cases t with
    | nil =>
      have word := (markFacts mark).word
      rw [List.nil_append, List.nil_append, declarations_unword word, declarations_unword word,
        declarations_nil, List.nil_append]
    | cons c t =>
      have whole := declared?_mark mark rest (c :: t)
      cases found : declared? (c :: t ++ [b]) with
      | none =>
        rw [found] at whole
        rw [List.cons_append] at found whole
        rw [List.cons_append, declarations_of_none whole, List.cons_append,
          declarations_of_none found]
        exact ih t.length (by rw [← hn]; exact Nat.lt_succ_self _) t rfl
      | some pair =>
        obtain ⟨d, left⟩ := pair
        obtain ⟨suffix, shorter⟩ := left_of_declared? found
        rw [found] at whole
        rw [declarations_of_some found, declarations_of_some whole]
        refine congrArg (d :: ·) ?_
        -- the declaration ends with the mark or in front of it
        obtain rfl | ⟨left, last, rfl⟩ := left.eq_nil_or_concat
        · rw [declarations_nil]
          rfl
        · rw [List.concat_eq_append] at suffix shorter ⊢
          obtain rfl : last = b := by simpa using suffix.getLast (by simp)
          rw [List.length_append, List.length_append] at shorter
          have less : left.length < n := hn ▸ Nat.lt_of_add_lt_add_right shorter
          rw [List.append_assoc]
          exact ih left.length less left rfl

/-- A declaration ends with a semicolon or an equals sign. -/
theorem declarations_eq_nil {cs : List Char} (semicolon : ';' ∉ cs) (equals : '=' ∉ cs) :
    declarations cs = [] := by
  refine List.eq_nil_iff_forall_not_mem.2 fun d member => ?_
  obtain ⟨s, rest, suffix, behind, c, word, trimmed, which⟩ := ended_of_mem_sweep member
  have inside : c ∈ cs := by
    apply (((suffix_trimStart behind).trans (suffix_word? word)).trans suffix).mem
    rw [trimmed]
    exact List.mem_cons_self
  obtain rfl | rfl := which
  · exact semicolon inside
  · exact equals inside

theorem declarations_blanks {blanks : List Char} (h : blanks.all isBlank = true)
    (rest : List Char) : declarations (blanks ++ rest) = declarations rest := by
  induction blanks with
  | nil => rfl
  | cons c blanks ih =>
    rw [List.all_cons, Bool.and_eq_true] at h
    rw [List.cons_append, declarations_unword (of_isBlank h.1).1, ih h.2]

/-- A text is quiet when no access modifier stands in it with a blank behind. -/
def Quiet (t : List Char) : Prop := ∀ s ∈ t.tails, keyword? accessModifiers s = none

instance (t : List Char) : Decidable (Quiet t) :=
  inferInstanceAs (Decidable (∀ s ∈ t.tails, _))

theorem declarations_quiet {t : List Char} (quiet : Quiet t) : declarations (t ++ [';']) = [] := by
  rw [declarations_append_of_none, declarations_unword (by decide), declarations_nil]
  intro s suffix _
  apply declared?_of_keyword?
  rw [keyword?_stop areWords_accessModifiers (by decide) (by decide),
    quiet s ((List.mem_tails _ _).2 suffix)]
  rfl

def Undeclared (cs : List Char) : Prop := (modifierEnds cs).findSome? (declaredBehind? cs) = none

/-- Nothing is declared by the end of a name that is an access modifier. -/
theorem declared?_name {name gap rest : List Char} (dotted : name.all isDotted = true)
    (blank : gap.all isBlank = true) (apart : gap ≠ []) (begins : rest.head?.any isBlank = false)
    (undeclared : Undeclared rest) : declared? (name ++ (gap ++ rest)) = none := by
  rw [declared?, keyword?_name areWords_accessModifiers dotted blank apart begins]
  split
  · exact undeclared
  · rfl

theorem modifierEnds_of_none {cs : List Char} (static : keyword? ["static"] cs = none)
    (final : keyword? ["final"] cs = none) : modifierEnds cs = [cs] := by
  rw [modifierEnds, maybeKeyword_of_none static, List.flatMap_singleton,
    maybeKeyword_of_none final, List.flatMap_singleton, maybeKeyword_of_none static]

private theorem undeclared_of_undotted {cs : List Char} (h : cs.head?.any isDotted = false) :
    Undeclared cs := by
  have word : cs.head?.any isWordChar = false := by
    cases head : cs.head? with
    | none => rfl
    | some c =>
      rw [head, Option.any_some, isDotted, Bool.or_eq_false_iff] at h
      exact h.1
  have none : dottedWord? cs = Option.none := if_neg (ne_true_of_eq_false h)
  rw [Undeclared, modifierEnds_of_none (keyword?_unword (by decide) word)
    (keyword?_unword (by decide) word), List.findSome?_singleton, declaredBehind?_eq, none]
  rfl

def endsField (c : Char) : Bool := c == ';' || c == '='

theorem endsField_of_isDotted (c : Char) (h : isDotted c = true) : endsField c = false := by
  by_contra ends
  rw [Bool.not_eq_false, endsField, Bool.or_eq_true, beq_iff_eq, beq_iff_eq] at ends
  obtain rfl | rfl := ends <;> exact absurd h (by decide)

theorem head?_blanks_ne {blanks : List Char} {c : Char} (h : blanks.all isBlank = true)
    (apart : blanks ≠ []) (solid : isBlank c = false) (rest : List Char) :
    (blanks ++ rest).head? ≠ some c := by
  obtain ⟨d, blanks, rfl⟩ := List.exists_cons_of_ne_nil apart
  rw [List.all_cons, Bool.and_eq_true] at h
  rintro ⟨⟩
  rw [h.1] at solid
  cases solid

/-- No name is read where the first word is not the last one. -/
theorem nameBehind?_eq_none {modifiers start gap behind : List Char}
    (blank : gap.all isBlank = true) (apart : gap ≠ []) (begins : behind.head?.any isBlank = false)
    (next : ∀ {word left}, word? behind = some (word, left) →
      (trimStart left).head?.any endsField = false) :
    nameBehind? modifiers start (gap ++ behind) = none := by
  have suffixes : skipSuffixes (gap ++ behind) = gap ++ behind :=
    skipSuffixes_replicate 0 (head?_blanks_ne blank apart (by decide) _)
  rw [nameBehind?, suffixes, afterBlanks?_eq_some blank apart begins]
  simp only [Option.bind_eq_bind, Option.bind_some]
  cases read : word? behind with
  | none => rfl
  | some found =>
    have ends := next read
    simp only [Option.bind_some]
    cases left : trimStart found.2 with
    | nil => rfl
    | cons c rest =>
      rw [left] at ends
      exact if_neg (ne_true_of_eq_false ends)

end Dto

namespace FieldDeclaration

variable {f : FieldDeclaration} (wf : f.WellFormed) (rest : List Char)

include wf

private theorem head?_trimStart_behindArguments :
    (trimStart (f.behindArguments rest)).head?.any Dto.endsField = false := by
  rw [behindArguments]
  cases f.type.arrays with
  | zero =>
    obtain ⟨c, name, split⟩ := List.exists_cons_of_ne_nil wf.named
    have letters := wf.name
    rw [split, List.all_cons, Bool.and_eq_true] at letters
    rw [List.replicate_zero, List.flatten_nil, List.nil_append, behindType,
      trimStart_blanks_append wf.gap]
    apply Dto.head?_trimStart_of_dotted Dto.endsField_of_isDotted
    rw [split]
    exact isDotted_of_isWordChar letters.1
  | succ n =>
    have bracket : isBlank '[' = false := by decide
    rw [trimStart_of_head? (by exact bracket)]
    rfl

/-- Behind the first word of a declaration without its modifiers comes what does not end it. -/
theorem head?_trimStart_body {word left : List Char}
    (read : word? (f.body ++ rest) = some (word, left)) :
    (trimStart left).head?.any Dto.endsField = false := by
  have same : (f.body ++ rest).dropWhile isWordChar = left := by
    rw [word?, run?] at read
    split at read
    · exact (Prod.mk.inj (Option.some.inj read)).2
    · cases read
  rw [← same, body_eq, List.dropWhile_append]
  cases part : f.type.base.dropWhile isWordChar with
  | cons c base =>
    have member : c ∈ f.type.base := (List.dropWhile_suffix _).mem (part ▸ List.mem_cons_self)
    exact Dto.head?_trimStart_of_dotted Dto.endsField_of_isDotted
      (List.all_eq_true.1 wf.type.characters c member)
  | nil =>
    rw [List.isEmpty_nil, if_pos rfl]
    cases f.type.arguments with
    | some inside => rfl
    | none =>
      obtain ⟨c, head, undotted, -⟩ := head?_behindArguments wf rest
      rw [isDotted, Bool.or_eq_false_iff] at undotted
      rw [Option.elim_none, List.nil_append,
        dropWhile_of_head? (by rw [head]; exact undotted.1)]
      exact head?_trimStart_behindArguments wf rest

/-- So does behind the first modifier. -/
theorem head?_trimStart_modifierText {ms : List (String × List Char)}
    (known : ∀ m ∈ ms, m.1 ∈ Dto.fieldModifiers ∧ m.2.all isBlank = true ∧ m.2 ≠ [])
    {word left : List Char}
    (read : word? (modifierText ms ++ (f.body ++ rest)) = some (word, left)) :
    (trimStart left).head?.any Dto.endsField = false := by
  cases ms with
  | nil => exact head?_trimStart_body wf rest read
  | cons m ms =>
    obtain ⟨modifier, gap⟩ := m
    rw [List.forall_mem_cons] at known
    obtain ⟨⟨member, blank, apart⟩, known⟩ := known
    obtain ⟨letters, nonempty⟩ :=
      Dto.areWords_fieldModifiers modifier member modifier (List.mem_singleton_self _)
    have text : modifierText ((modifier, gap) :: ms) ++ (f.body ++ rest) =
        modifier.toList ++ (gap ++ (modifierText ms ++ (f.body ++ rest))) := by
      simp [modifierText]
    rw [text, word?, run?_append letters nonempty (head?_word_apart blank apart _)] at read
    rw [← (Prod.mk.inj (Option.some.inj read)).2, trimStart_blanks_append blank]
    exact Dto.head?_trimStart_of_dotted Dto.endsField_of_isDotted
      (head?_modifierText wf rest fun m member => (known m member).1)

/-- Behind its access modifier a declaration has more than one word. -/
theorem undeclared_text : Dto.Undeclared (f.text ++ rest) := by
  have known : ∀ m ∈ f.modifiers,
      m.1 ∈ Dto.fieldModifiers ∧ m.2.all isBlank = true ∧ m.2 ≠ [] :=
    fun m member => ⟨mem_modifiers wf member, wf.gaps m member⟩
  have begins := head?_behindAccess wf rest
  have next {word left : List Char} := @head?_trimStart_modifierText f wf rest _ known word left
  rw [← behindAccess] at next
  rw [text_eq]
  generalize f.behindAccess rest = behind at begins next
  obtain ⟨letters, nonempty⟩ := Dto.areWords_accessModifiers f.access wf.access
  have undotted := head?_any_apart wf.space wf.spaced (fun _ => isDotted_of_isBlank) behind
  have unword := head?_word_apart wf.space wf.spaced behind
  have other : ∀ access ∈ Dto.accessModifiers, ∀ keyword ∈ Dto.fieldModifiers,
      String.ofList access.toList ∉ [keyword] := by decide
  have unread {keyword : String} (asked : keyword ∈ Dto.fieldModifiers) :
      keyword? [keyword] (f.access.toList ++ (f.space ++ behind)) = none :=
    Dto.keyword?_other (Dto.areWords_fieldModifiers keyword asked) letters
      (other f.access wf.access keyword asked) unword
  have type : dottedWord? (f.access.toList ++ (f.space ++ behind)) =
      some (f.access.toList, f.space ++ behind) :=
    run?_append (all_wider (fun _ => isDotted_of_isWordChar) letters) nonempty undotted
  have ends : Dto.typeEnds (f.space ++ behind) = [f.space ++ behind] := by
    rw [Dto.typeEnds, afterChar?_of_head? (Dto.head?_blanks_ne wf.space wf.spaced (by decide) _)]
  rw [Dto.Undeclared, Dto.modifierEnds_of_none (unread (by decide)) (unread (by decide)),
    List.findSome?_singleton, Dto.declaredBehind?_eq, type, Option.bind_some, ends,
    List.findSome?_singleton]
  exact Dto.nameBehind?_eq_none wf.space wf.spaced (Dto.unblank_of_dotted begins) next

end FieldDeclaration

/-- A directive that stands apart from what follows it. -/
structure Java.Written.Standing (w : Written) : Prop where
  characters : w.qualified.all isDotted = true
  space : ∀ arguments ∈ w.arguments, arguments.1.all isBlank = true
  gap : w.gap.all isBlank = true
  apart : w.gap ≠ []

instance (w : Written) : Decidable w.Standing :=
  decidable_of_iff (_ ∧ _ ∧ _ ∧ _) ⟨fun ⟨a, b, c, d⟩ => ⟨a, b, c, d⟩,
    fun ⟨a, b, c, d⟩ => ⟨a, b, c, d⟩⟩

namespace Dto

private theorem declarations_written {w : Written} (standing : w.Standing) {rest : List Char}
    (begins : rest.head?.any isBlank = false) (undeclared : Undeclared rest) :
    declarations (w.text ++ (w.gap ++ rest)) = declarations w.text ++ declarations rest := by
  cases arguments : w.arguments with
  | none =>
    have text := text_of_no_arguments arguments
    have absent {c : Char} (sign : c ≠ '@') (name : isDotted c = false) : c ∉ w.text := by
      rw [text, List.mem_cons, not_or]
      exact ⟨sign, not_mem_of_all standing.characters name⟩
    rw [declarations_eq_nil (absent (by decide) (by decide)) (absent (by decide) (by decide)), text,
      List.cons_append, declarations_unword (by decide), declarations_append_of_none,
      declarations_blanks standing.gap, List.nil_append]
    intro s suffix _
    exact declared?_name (all_of_suffix standing.characters suffix) standing.gap standing.apart
      begins undeclared
  | some found =>
    have text : w.text = (w.opening found.1 ++ found.2) ++ [')'] := by
      rw [text_of_arguments arguments, List.append_assoc]
    rw [text, List.append_assoc, List.singleton_append, declarations_mark (by decide),
      declarations_blanks standing.gap]

/-- In front of a member that which reads like a declaration in its directives is declared. -/
theorem declarations_leadText {ws : List Written} (standing : ∀ w ∈ ws, w.Standing)
    {rest : List Char} (begins : rest.head?.any isBlank = false) (undeclared : Undeclared rest) :
    declarations (leadText ws ++ rest) =
      (ws.flatMap fun w => declarations w.text) ++ declarations rest := by
  induction ws with
  | nil => rfl
  | cons w ws ih =>
    rw [List.forall_mem_cons] at standing
    -- what follows is the next directive or what stands behind all of them
    obtain ⟨begins', undeclared'⟩ : (leadText ws ++ rest).head?.any isBlank = false ∧
        Undeclared (leadText ws ++ rest) := by
      cases ws with
      | nil => exact ⟨begins, undeclared⟩
      | cons v ws => exact ⟨rfl, undeclared_of_undotted rfl⟩
    rw [leadText_cons, declarations_written standing.1 begins' undeclared', ih standing.2,
      List.flatMap_cons, List.append_assoc]

end Dto

end ApiCollection
