import ApiCollection.Dto.Source
import ApiCollection.Proofs.DirectiveLines
import ApiCollection.Proofs.TopLevelPieces

/-!
# Components of a record

A component has directives, a type and a name. When no directive has arguments, the words of a
component are what is left of the names of its directives, the words of its type, and its name. A
name without dots leaves nothing.
-/

namespace ApiCollection

open Text Java

/-- A component of a record with the blanks around it. -/
structure Component where
  front : List Char
  directives : List Written
  type : ReturnType
  gap : List Char
  name : List Char
  trail : List Char

namespace Component

def text (c : Component) : List Char :=
  c.front ++ (leadText c.directives ++ (c.type.text ++ (c.gap ++ (c.name ++ c.trail))))

def field (c : Component) : Field := ⟨String.ofList c.name, String.ofList c.type.text⟩

end Component

/-- A directive that may stand in front of other things on any lines. -/
structure Java.Written.Proper (w : Written) : Prop where
  characters : w.qualified.all isNameChar = true
  begins : w.qualified.head?.any isWordChar = true
  space : ∀ arguments ∈ w.arguments, arguments.1.all isBlank = true
  enclosed : ∀ arguments ∈ w.arguments, Enclosed arguments.2
  gap : w.gap.all isBlank = true

/-- Whether directives are proper and do not run into what follows. -/
structure Leading (ws : List Written) : Prop where
  proper : ∀ w ∈ ws, w.Proper
  parted : ∀ w ∈ ws.getLast?, w.arguments = none → w.gap ≠ []

def isArgumentChar (c : Char) : Bool := isDotted c || ",<>[]?& ".toList.contains c

/-- A type is well-formed when it has a name, its brackets are closed, and its parts are set apart by
single spaces. -/
structure IsFieldType (t : ReturnType) : Prop where
  base : t.base.all isDotted = true
  named : t.base ≠ []
  arguments : ∀ inside ∈ t.arguments, inside.all isArgumentChar = true
  closes : ∀ inside ∈ t.arguments, closesAngles 0 inside = true
  spaced : squeezeBlanks t.text = t.text

structure Component.WellFormed (c : Component) : Prop where
  front : c.front.all isBlank = true
  leading : Leading c.directives
  type : IsFieldType c.type
  gap : c.gap.all isBlank = true
  apart : c.gap ≠ []
  name : c.name.all isWordChar = true
  named : c.name ≠ []
  trail : c.trail.all isBlank = true
  /-- Neither the name nor the type is left out. -/
  kept : ¬Dto.deniedNames.contains (String.ofList c.name) ∧
    ¬Dto.deniedTypes.contains (TypeExpr.ofChars c.type.text).base

instance (w : Written) : Decidable w.Proper :=
  decidable_of_iff (_ ∧ _ ∧ _ ∧ _ ∧ _) ⟨fun ⟨a, b, c, d, e⟩ => ⟨a, b, c, d, e⟩,
    fun ⟨a, b, c, d, e⟩ => ⟨a, b, c, d, e⟩⟩

instance (ws : List Written) : Decidable (Leading ws) :=
  decidable_of_iff (_ ∧ _) ⟨fun ⟨a, b⟩ => ⟨a, b⟩, fun ⟨a, b⟩ => ⟨a, b⟩⟩

instance (t : ReturnType) : Decidable (IsFieldType t) :=
  decidable_of_iff (_ ∧ _ ∧ _ ∧ _ ∧ _) ⟨fun ⟨a, b, c, d, e⟩ => ⟨a, b, c, d, e⟩,
    fun ⟨a, b, c, d, e⟩ => ⟨a, b, c, d, e⟩⟩

instance (c : Component) : Decidable c.WellFormed :=
  decidable_of_iff (_ ∧ _ ∧ _ ∧ _ ∧ _ ∧ _ ∧ _ ∧ _ ∧ _ ∧ _)
    ⟨fun ⟨a, b, c, d, e, f, g, h, i, j⟩ => ⟨a, b, c, d, e, f, g, h, ⟨i, j⟩⟩,
      fun ⟨a, b, c, d, e, f, g, h, ⟨i, j⟩⟩ => ⟨a, b, c, d, e, f, g, h, i, j⟩⟩

private theorem isArgumentChar_of_isDotted {c : Char} (h : isDotted c = true) :
    isArgumentChar c = true := by
  rw [isArgumentChar, h, Bool.true_or]

theorem mem_arrays {n : Nat} {c : Char} (h : c ∈ (List.replicate n "[]".toList).flatten) :
    c ∈ "[]".toList := by
  obtain ⟨suffix, member, inner⟩ := List.mem_flatten.1 h
  rwa [List.eq_of_mem_replicate member] at inner

section FieldType

variable {t : ReturnType} (wf : IsFieldType t)

include wf

theorem characters_type : t.text.all isArgumentChar = true := by
  have suffix : "[]".toList.all isArgumentChar = true := by decide
  rw [List.all_eq_true, ReturnType.text, List.forall_mem_append, List.forall_mem_append]
  refine ⟨fun c hc => isArgumentChar_of_isDotted (List.all_eq_true.1 wf.base c hc), ?_,
    fun c hc => List.all_eq_true.1 suffix c (mem_arrays hc)⟩
  cases arguments : t.arguments with
  | none => simp
  | some inside =>
    rw [Option.elim_some, List.forall_mem_cons, List.forall_mem_append, List.forall_mem_singleton]
    exact ⟨by decide, List.all_eq_true.1 (wf.arguments inside arguments), by decide⟩

private theorem flat_type : Flat ',' t.text := by
  have arrays : Flat ',' (List.replicate t.arrays "[]".toList).flatten := by
    apply @flat_of_class _ fun c => "[]".toList.contains c
    · decide
    · rw [List.all_eq_true]
      exact fun c hc => List.contains_iff_mem.2 (mem_arrays hc)
  rw [ReturnType.text]
  apply (flat_of_class (by decide) wf.base).append
  apply Flat.append _ arrays
  cases arguments : t.arguments with
  | none => exact flat_of_plain rfl
  | some inside =>
    apply flat_angles (by decide) _ (wf.closes inside arguments)
    intro c hc
    have argument := List.all_eq_true.1 (wf.arguments inside arguments) c hc
    rw [isArgumentChar, Bool.or_eq_true, List.contains_iff_mem] at argument
    obtain dotted | member := argument
    · exact Or.inr (Or.inr (Or.inr (isPlain_of_class (by decide) dotted)))
    · have each : ",<>[]?& ".toList.all (fun c => c == '<' || c == '>' || c == ',' || isPlain ',' c) =
          true := by decide
      have here := List.all_eq_true.1 each c member
      simpa only [Bool.or_eq_true, beq_iff_eq, or_assoc] using here

private theorem head?_type : ∃ c, t.text.head? = some c ∧ isDotted c = true := by
  obtain ⟨c, base, cons⟩ := List.exists_cons_of_ne_nil wf.named
  have dotted := wf.base
  rw [cons, List.all_cons, Bool.and_eq_true] at dotted
  exact ⟨c, by rw [ReturnType.text, cons]; rfl, dotted.1⟩

end FieldType

def leftover (w : Written) : List Char := w.qualified.dropWhile isWordChar

def leftovers (ws : List Written) : List (List Char) := (ws.map leftover).filter fun w => !w.isEmpty

def leftoverText (ws : List Written) : List Char := ws.flatMap fun w => ' ' :: (leftover w ++ w.gap)

theorem isBlank_of_isDotted {c : Char} (h : isDotted c = true) : isBlank c = false := by
  rw [Bool.eq_false_iff]
  intro blank
  rw [isDotted_of_isBlank blank] at h
  cases h

theorem isDotted_of_mem_leftover {w : Written} (proper : w.Proper) :
    ∀ c ∈ leftover w, isDotted c = true := by
  intro c member
  have name := (List.dropWhile_sublist isWordChar).mem member
  exact isDotted_of_isNameChar (List.all_eq_true.1 proper.characters c name)

theorem blankDirectives_append {cs : List Char} (h : '@' ∉ cs) (rest : List Char) :
    Dto.blankDirectives (cs ++ rest) = cs ++ Dto.blankDirectives rest := by
  induction cs with
  | nil => rfl
  | cons c cs ih =>
    rw [List.mem_cons, not_or] at h
    have none' : Dto.afterDirective? (c :: (cs ++ rest)) = none := by
      rw [Dto.afterDirective?, afterChar?, if_neg (by simpa using Ne.symm h.1)]
      rfl
    rw [List.cons_append, Dto.blankDirectives, none', ih h.2]
    rfl

private theorem blankDirectives_of_not_mem {cs : List Char} (h : '@' ∉ cs) :
    Dto.blankDirectives cs = cs := by
  have whole := blankDirectives_append h []
  rwa [List.append_nil, Dto.blankDirectives, List.append_nil] at whole

/-- The first part of the name of a directive is read as a word. -/
theorem word?_qualified {w : Written} (proper : w.Proper) {behind : List Char}
    (word : behind.head?.any isWordChar = false) : word? (w.qualified ++ behind) =
      some (w.qualified.takeWhile isWordChar, leftover w ++ behind) := by
  have split : w.qualified ++ behind =
      w.qualified.takeWhile isWordChar ++ (leftover w ++ behind) := by
    rw [← List.append_assoc, leftover, List.takeWhile_append_dropWhile]
  rw [split]
  apply run?_append
  · exact List.all_takeWhile
  · intro empty
    obtain ⟨c, head, letter⟩ := (Option.any_eq_true _ _).1 proper.begins
    obtain ⟨rest, cons⟩ := List.head?_eq_some_iff.1 head
    rw [cons, List.takeWhile_cons, letter] at empty
    cases empty
  · have stays := head?_any_dropWhile isWordChar w.qualified
    rw [leftover]
    cases left : w.qualified.dropWhile isWordChar with
    | nil => exact word
    | cons c rest =>
      rw [left] at stays
      exact stays

/-- A directive without arguments is skipped up to the end of the first part of its name. -/
theorem afterDirective?_bare {w : Written} (proper : w.Proper) {behind : List Char}
    (word : behind.head?.any isWordChar = false) (paren : behind.head? ≠ some '(') :
    Dto.afterDirective? ('@' :: (w.qualified ++ behind)) = some (leftover w ++ behind) := by
  have open' : afterChar? '(' (leftover w ++ behind) = none := by
    apply afterChar?_of_head?
    cases left : leftover w with
    | nil => exact paren
    | cons c rest =>
      have dotted := isDotted_of_mem_leftover proper c (by rw [left]; exact List.mem_cons_self)
      rw [List.cons_append, List.head?_cons]
      rintro ⟨⟩
      exact absurd dotted (by decide)
  rw [Dto.afterDirective?, afterChar?, if_pos (by decide)]
  simp only [bind, Option.bind_some, word?_qualified proper word, open', Option.bind_none,
    Option.getD_none]
  rfl

/-- Of a directive without arguments what is left of its name stays behind a blank. -/
theorem blankDirectives_bare {w : Written} (proper : w.Proper) {behind : List Char}
    (word : behind.head?.any isWordChar = false) (paren : behind.head? ≠ some '(') :
    Dto.blankDirectives ('@' :: (w.qualified ++ behind)) =
      ' ' :: (leftover w ++ Dto.blankDirectives behind) := by
  have shorter : (leftover w ++ behind).length ≤ (w.qualified ++ behind).length := by
    have less := (List.dropWhile_sublist (l := w.qualified) isWordChar).length_le
    simp only [List.length_append]
    exact Nat.add_le_add_right less _
  have sign : '@' ∉ leftover w := fun member => absurd (isDotted_of_mem_leftover proper _ member) (by decide)
  rw [Dto.blankDirectives, afterDirective?_bare proper word paren]
  dsimp only
  rw [if_pos shorter, blankDirectives_append sign]

theorem Leading.tail {w : Written} {ws : List Written} (h : Leading (w :: ws)) : Leading ws := by
  constructor
  · exact fun v member => h.proper v (List.mem_cons_of_mem w member)
  · intro v last
    exact h.parted v (by rw [List.getLast?_cons, last]; rfl)

theorem leadText_cons (w : Written) (ws : List Written) (rest : List Char) :
    leadText (w :: ws) ++ rest = w.text ++ (w.gap ++ (leadText ws ++ rest)) := by
  simp [leadText]

theorem leftoverText_cons (w : Written) (ws : List Written) (rest : List Char) :
    leftoverText (w :: ws) ++ rest = ' ' :: (leftover w ++ (w.gap ++ (leftoverText ws ++ rest))) := by
  simp [leftoverText]

def isLeadChar (c : Char) : Bool := c == '@' || isDotted c || isBlank c

section Bare

variable {ws : List Written} (bare : ∀ w ∈ ws, w.arguments = none) (leading : Leading ws)

include bare leading

private theorem blankDirectives_leadText {rest : List Char} (sign : '@' ∉ rest) :
    Dto.blankDirectives (leadText ws ++ rest) = leftoverText ws ++ rest := by
  induction ws with
  | nil => exact blankDirectives_of_not_mem sign
  | cons w ws ih =>
    have proper := leading.proper w List.mem_cons_self
    have none' := bare w List.mem_cons_self
    have later := ih (fun v member => bare v (List.mem_cons_of_mem w member)) leading.tail
    -- behind the name there is a blank or the sign of the next directive
    obtain ⟨c, head, word, paren⟩ : ∃ c, (w.gap ++ (leadText ws ++ rest)).head? = some c ∧
        isWordChar c = false ∧ c ≠ '(' := by
      cases gap : w.gap with
      | cons c gap =>
        have blank := proper.gap
        rw [gap, List.all_cons, Bool.and_eq_true] at blank
        refine ⟨c, rfl, (of_isBlank blank.1).1, ?_⟩
        rintro rfl
        exact absurd blank.1 (by decide)
      | nil =>
        cases ws with
        | nil => exact absurd gap (leading.parted w rfl none')
        | cons v ws => exact ⟨'@', rfl, by decide⟩
    have gap : '@' ∉ w.gap := not_mem_of_all proper.gap (by decide)
    rw [leadText_cons, text_of_no_arguments none', List.cons_append, leftoverText_cons,
      blankDirectives_bare proper (by rw [head]; exact word) (by simpa [head] using paren),
      blankDirectives_append gap, later]

theorem characters_leadText : (leadText ws).all isLeadChar = true := by
  rw [List.all_eq_true]
  intro c member
  obtain ⟨w, hw, member⟩ := List.mem_flatMap.1 member
  have proper := leading.proper w hw
  rw [text_of_no_arguments (bare w hw), List.cons_append, List.mem_cons, List.mem_append] at member
  rw [isLeadChar, Bool.or_eq_true, Bool.or_eq_true, beq_iff_eq]
  obtain rfl | name | gap := member
  · exact Or.inl (Or.inl rfl)
  · exact Or.inl (Or.inr (isDotted_of_isNameChar (List.all_eq_true.1 proper.characters c name)))
  · exact Or.inr (List.all_eq_true.1 proper.gap c gap)

/-- What is left of directives are words of their own. -/
theorem words_leftoverText (rest : List Char) :
    words (leftoverText ws ++ rest) = leftovers ws ++ words rest := by
  induction ws with
  | nil => rfl
  | cons w ws ih =>
    have proper := leading.proper w List.mem_cons_self
    have later := ih (fun v member => bare v (List.mem_cons_of_mem w member)) leading.tail
    have solid : words (leftover w) = [leftover w].filter fun w => !w.isEmpty := by
      apply words_of_solid
      intro c member
      exact isBlank_of_isDotted (isDotted_of_mem_leftover proper c member)
    have split : words (leftover w ++ (w.gap ++ (leftoverText ws ++ rest))) =
        words (leftover w) ++ words (leftoverText ws ++ rest) := by
      by_cases gap : w.gap = []
      · cases ws with
        | nil => exact absurd gap (leading.parted w rfl (bare w List.mem_cons_self))
        | cons v ws =>
          rw [gap, List.nil_append, leftoverText_cons, words_append_cons (by decide),
            words_blank_cons (by decide)]
      · exact words_gap proper.gap gap _ _
    have front : leftovers (w :: ws) = ([leftover w].filter fun w => !w.isEmpty) ++ leftovers ws := by
      rw [leftovers, leftovers, List.map_cons, ← List.filter_append]
      rfl
    rw [leftoverText_cons, words_blank_cons (by decide), split, solid, later, front, List.append_assoc]

end Bare

theorem isLeadChar_of_blanks {cs : List Char} (h : cs.all isBlank = true) :
    cs.all isLeadChar = true := by
  rw [List.all_eq_true] at h ⊢
  intro c member
  rw [isLeadChar, h c member, Bool.or_true]

theorem isLeadChar_of_letters {cs : List Char} (h : cs.all isWordChar = true) :
    cs.all isLeadChar = true := by
  rw [List.all_eq_true] at h ⊢
  intro c member
  rw [isLeadChar, isDotted_of_isWordChar (h c member), Bool.or_true, Bool.true_or]

namespace Component

variable {c : Component} (wf : c.WellFormed)

def readType (c : Component) : List Char :=
  joinWith [' '] (leftovers c.directives ++ words c.type.text)

include wf

theorem words_type : joinWith [' '] (words c.type.text) = c.type.text := wf.type.spaced

theorem words_type_ne_nil : words c.type.text ≠ [] := by
  intro empty
  have spaced := words_type wf
  obtain ⟨first, head, -⟩ := head?_type wf.type
  rw [empty] at spaced
  rw [← spaced] at head
  cases head

/-- The words of a component whose directives have no arguments. -/
theorem words_text (bare : ∀ w ∈ c.directives, w.arguments = none) :
    words (Dto.blankDirectives c.text) =
      (leftovers c.directives ++ words c.type.text) ++ [c.name] := by
  have name : words (c.name ++ c.trail) = [c.name] := by
    have solid : words c.name = [c.name] := by
      rw [words_of_solid fun d member => ?_]
      · simpa using wf.named
      · exact isBlank_of_isWordChar (List.all_eq_true.1 wf.name d member)
    by_cases trail : c.trail = []
    · rw [trail, List.append_nil, solid]
    · have apart := words_gap wf.trail trail c.name []
      rw [List.append_nil, solid] at apart
      rw [apart]
      rfl
  have sign : '@' ∉ c.type.text ++ (c.gap ++ (c.name ++ c.trail)) := by
    simp only [List.mem_append, not_or]
    exact ⟨not_mem_of_all (characters_type wf.type) (by decide), not_mem_of_all wf.gap (by decide),
      not_mem_of_all wf.name (by decide), not_mem_of_all wf.trail (by decide)⟩
  rw [text, blankDirectives_append (not_mem_of_all wf.front (by decide)),
    blankDirectives_leadText bare wf.leading sign, words_blanks_append wf.front,
    words_leftoverText bare wf.leading, words_gap wf.gap wf.apart, name, List.append_assoc]

/-- A component whose directives have no arguments holds no parenthesis, no semicolon and no equals
sign. -/
theorem characters_text (bare : ∀ w ∈ c.directives, w.arguments = none) :
    c.text.all (fun d => isLeadChar d || isArgumentChar d) = true := by
  have lead {cs : List Char} (h : cs.all isLeadChar = true) :
      ∀ d ∈ cs, (isLeadChar d || isArgumentChar d) = true := by
    intro d member
    rw [List.all_eq_true.1 h d member, Bool.true_or]
  have type : ∀ d ∈ c.type.text, (isLeadChar d || isArgumentChar d) = true := by
    intro d member
    rw [List.all_eq_true.1 (characters_type wf.type) d member, Bool.or_true]
  have directives := characters_leadText bare wf.leading
  rw [List.all_eq_true, text]
  simp only [List.forall_mem_append]
  exact ⟨lead (isLeadChar_of_blanks wf.front), lead directives, type,
    lead (isLeadChar_of_blanks wf.gap), lead (isLeadChar_of_letters wf.name),
    lead (isLeadChar_of_blanks wf.trail)⟩

/-- A component whose directives have no arguments is one piece. -/
theorem flat_text (bare : ∀ w ∈ c.directives, w.arguments = none) : Flat ',' c.text := by
  have lead {cs : List Char} (h : cs.all isLeadChar = true) : Flat ',' cs :=
    flat_of_class (by decide) h
  have directives := characters_leadText bare wf.leading
  rw [text]
  apply (lead (isLeadChar_of_blanks wf.front)).append
  apply (lead directives).append
  apply (flat_type wf.type).append
  apply (lead (isLeadChar_of_blanks wf.gap)).append
  exact (lead (isLeadChar_of_letters wf.name)).append (lead (isLeadChar_of_blanks wf.trail))

theorem allBlank_text : allBlank c.text = false := by
  obtain ⟨d, name, cons⟩ := List.exists_cons_of_ne_nil wf.named
  have letter := wf.name
  rw [cons, List.all_cons, Bool.and_eq_true] at letter
  rw [allBlank, List.all_eq_false]
  refine ⟨d, by simp [text, cons], ?_⟩
  rw [isBlank_of_isWordChar letter.1]
  exact Bool.false_ne_true

/-- A component whose directives have no arguments adds its name with the type that is read. -/
theorem addComponent_text (bare : ∀ w ∈ c.directives, w.arguments = none) (fields : List Field) :
    Dto.addComponent fields c.text = Dto.addField fields c.name (readType c) := by
  have nonempty : leftovers c.directives ++ words c.type.text ≠ [] := by
    simp [words_type_ne_nil wf]
  obtain ⟨before, last, split⟩ := List.eq_nil_or_concat _ |>.resolve_left nonempty
  rw [Dto.addComponent, words_text wf bare, readType, split]
  simp

theorem trim_readType : trim c.readType = c.readType := by
  apply trim_joinWith
  rw [List.forall_mem_append]
  refine ⟨fun w member => ?_, fun w member => solid_of_mem_words member⟩
  obtain ⟨written, nonempty⟩ := List.mem_filter.1 member
  obtain ⟨v, member', rfl⟩ := List.mem_map.1 written
  refine ⟨by simpa using nonempty, fun d inside => ?_⟩
  exact isBlank_of_isDotted (isDotted_of_mem_leftover (wf.leading.proper v member') d inside)

/-- The type that is read is the written one exactly when nothing is left of the directives. -/
theorem readType_eq_iff : c.readType = c.type.text ↔ leftovers c.directives = [] := by
  rw [readType]
  constructor
  · intro same
    by_contra left
    have length := congrArg List.length same
    rw [joinWith_append _ left (words_type_ne_nil wf), words_type wf] at length
    simp only [List.length_append, List.length_singleton] at length
    omega
  · intro nothing
    rw [nothing, List.nil_append, words_type wf]

end Component

/-- Whether nothing of a directive is read as a type: it has neither arguments nor a qualifier. -/
def IsSimple (w : Written) : Prop := w.arguments = none ∧ '.' ∉ w.qualified

instance (w : Written) : Decidable (IsSimple w) := inferInstanceAs (Decidable (_ ∧ _))

private theorem leftover_eq_nil_iff {w : Written} (proper : w.Proper) :
    leftover w = [] ↔ '.' ∉ w.qualified := by
  rw [leftover, List.dropWhile_eq_nil_iff]
  constructor
  · intro letters member
    exact absurd (letters _ member) (by decide)
  · intro absent c member
    have dotted := isDotted_of_isNameChar (List.all_eq_true.1 proper.characters c member)
    rw [isDotted, Bool.or_eq_true, beq_iff_eq] at dotted
    obtain letter | rfl := dotted
    · exact letter
    · exact absurd member absent

theorem leftovers_eq_nil_iff {ws : List Written} (proper : ∀ w ∈ ws, w.Proper) :
    leftovers ws = [] ↔ ∀ w ∈ ws, '.' ∉ w.qualified := by
  rw [leftovers, List.filter_eq_nil_iff, List.forall_mem_map]
  constructor
  · intro nothing w member
    rw [← leftover_eq_nil_iff (proper w member)]
    simpa using nothing w member
  · intro absent w member
    rw [(leftover_eq_nil_iff (proper w member)).2 (absent w member)]
    decide

end ApiCollection
