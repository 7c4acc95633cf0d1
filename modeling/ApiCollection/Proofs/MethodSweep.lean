import ApiCollection.Proofs.Signatures

/-!
# Methods behind directives

The sweep passes over the directives of a method and makes a head of its declaration. The name of a
directive without arguments takes the declaration along in two cases: when it ends in a modifier, and
when the declaration looks like the arguments of a type of that name. Such a method has no head.
-/

namespace ApiCollection.Java

open Text

/-- A method with its directives, and the blanks around it. -/
structure Method where
  indent : List Char
  directives : List Written
  declaration : Declaration
  parameters : List Char
  /-- The blanks behind the parameters. -/
  space : List Char
  /-- What stands behind the word `throws`, if that is there. -/
  thrown : Option (List Char)
  ending : Ending
  trail : List Char

def Ending.inside : Ending → List Char
  | semicolon => []
  | body inside => inside

namespace Method

def clause (m : Method) : List Char := m.thrown.elim [] ("throws".toList ++ ·)

def behind (m : Method) (rest : List Char) : List Char :=
  m.parameters ++ ')' :: (m.space ++ (m.clause ++ (m.ending.text ++ (m.trail ++ rest))))

def lead (m : Method) : List Char := m.indent ++ leadText m.directives

def text (m : Method) : List Char := m.lead ++ m.declaration.text (m.behind [])

private theorem text_append (m : Method) (rest : List Char) :
    m.text ++ rest = m.indent ++ (leadText m.directives ++ m.declaration.text (m.behind rest)) := by
  simp [text, lead, behind, Declaration.text, Declaration.generic, Signature.text, Call.text]

end Method

/-- The characters of a `throws` clause. -/
def isThrownChar (c : Char) : Bool := isDotted c || isBlank c || c == ','

/-- A method is well-formed when its parts are what they are called, its parentheses are balanced,
and nothing in its directives, in its parameters or in its body is a declaration. -/
structure Method.WellFormed (m : Method) : Prop where
  indent : m.indent.all isBlank = true
  directives : ∀ w ∈ m.directives, w.Silent
  /-- The last directive does not run into the declaration. -/
  parted : ∀ w ∈ m.directives.getLast?, w.arguments = none → w.gap ≠ []
  declaration : m.declaration.WellFormed
  enclosed : Enclosed m.parameters
  calm : Calm (some '(') m.parameters
  space : m.space.all isBlank = true
  thrown : ∀ names ∈ m.thrown, names.all isThrownChar = true
  body : Calm (some '\x7b') m.ending.inside
  trail : m.trail.all isBlank = true

instance (m : Method) : Decidable m.WellFormed :=
  decidable_of_iff (_ ∧ _ ∧ _ ∧ _ ∧ _ ∧ _ ∧ _ ∧ _ ∧ _ ∧ _)
    ⟨fun ⟨a, b, c, d, e, f, g, h, i, j⟩ => ⟨a, b, c, d, e, f, g, h, i, j⟩,
      fun ⟨a, b, c, d, e, f, g, h, i, j⟩ => ⟨a, b, c, d, e, f, g, h, i, j⟩⟩

/-- Whether a declaration looks like the arguments of a type before it: it begins with an angle
bracket, and the last one in it stands right before its name. -/
def Declaration.readsAsArguments (d : Declaration) : Bool :=
  d.modifiers.isEmpty && d.typeParameters.isSome && d.signature.type.arguments.isSome

def Declaration.Joins (d : Declaration) (name : List Char) : Prop :=
  (∃ word ∈ methodModifiers, name = word.toList) ∨ d.readsAsArguments = true

section Name

variable {d : Declaration} (wf : d.WellFormed) (behind : List Char)

include wf

/-- The declaration may follow a directive, unless it begins with type parameters. -/
theorem follows_declaration (other : d.modifiers = [] → d.typeParameters = none) :
    Follows (d.text behind) := by
  have modifiers := wf.modifiers
  rw [Declaration.text]
  cases each : d.modifiers with
  | nil =>
    rw [Declaration.generic, other each]
    exact follows_signature wf.signature behind
  | cons m ms =>
    obtain ⟨word, gap⟩ := m
    rw [each, AreModifiers, List.forall_mem_cons] at modifiers
    obtain ⟨⟨member, blanks, apart⟩, others⟩ := modifiers
    obtain ⟨letters, nonempty⟩ := isDotted_of_mem_modifier word member
    have first : word.toList.head?.any isDotted = true := by
      rw [List.head?_eq_some_head nonempty]
      exact List.all_eq_true.1 letters _ (List.head_mem nonempty)
    obtain ⟨blank, paren⟩ :=
      of_opensDeclaration (head?_modifierText others (head?_generic wf behind))
    rw [modifierText, List.flatMap_cons, List.append_assoc, List.append_assoc]
    exact follows_of_gap first (not_mem_of_all letters (by decide)) blanks apart blank paren

end Name

/-- A call behind a text with a name in it does not begin there. -/
theorem nameBehind?_of_dotted {c : Call} (wf : c.WellFormed) {x : List Char} (absent : '(' ∉ x)
    {d : Char} (member : d ∈ x) (dotted : isDotted d = true) (behind start typeStart : List Char) :
    nameBehind? start typeStart (x ++ c.text behind) = none := by
  cases found : nameBehind? start typeStart (x ++ c.text behind) with
  | none => rfl
  | some k =>
    -- The first parenthesis has one name in front of it, so the whole text would have to be skipped
    -- as array suffixes and blanks.
    exfalso
    obtain ⟨c', called, skips⟩ := nameBehind?_eq_some found
    obtain ⟨skipped, split, characters⟩ := skipArraySuffixes_split (x ++ c.text behind)
    rw [skips] at split
    have fronts := Call.text_inj wf called absent (not_mem_of_all characters (by decide)) split
    have inside : d ∈ skipped ++ c'.gap := by
      rw [← fronts]
      exact List.mem_append_left _ member
    obtain ⟨blank, -, bracket, -⟩ := of_isDotted dotted
    obtain inSkipped | inGap := List.mem_append.1 inside
    · have array := List.all_eq_true.1 characters d inSkipped
      rw [isArrayChar, blank, Bool.false_or, Bool.or_eq_true, beq_iff_eq, beq_iff_eq] at array
      obtain rfl | rfl := array
      · exact bracket rfl
      · exact absurd dotted (by decide)
    · rw [List.all_eq_true.1 called.gap d inGap] at blank
      cases blank

section TypeParameters

variable {t : TypeParameters} (wf : t.WellFormed) {s : Signature} (signature : s.WellFormed)
  (behind : List Char)

include wf

theorem inside_characters : t.inside.all (fun c => !endsArguments c) = true := by
  have plain {cs : List Char} (h : cs.all isParameterChar = true) :
      cs.all (fun c => !endsArguments c) = true := by
    rw [List.all_eq_true] at h ⊢
    intro c hc
    have here := h c hc
    rw [isParameterChar, Bool.and_eq_true, Bool.and_eq_true] at here
    exact here.1.1
  rw [TypeParameters.inside, List.all_append, plain wf.front, Bool.true_and, List.all_flatMap,
    List.all_eq_true]
  intro list member
  obtain ⟨inner, after⟩ := wf.inner list member
  have angles : endsArguments '<' = false ∧ endsArguments '>' = false := by decide
  simp [List.all_cons, List.all_append, plain inner, plain after, angles]

include signature

/-- Behind type parameters the arguments of the return type are the last ones to end. -/
theorem argumentEnds_generic {blanks inside : List Char}
    (arguments : s.type.arguments = some (blanks, inside)) : ∃ ends,
    argumentEnds (t.inside ++ '>' :: (t.gap ++ s.text behind)) =
      (arrayText s.type.arrays ++ s.call.text behind) :: ends := by
  obtain ⟨blank, plain⟩ := signature.type.arguments _ arguments
  have other {p : Char → Bool} {cs : List Char} (h : cs.all p = true)
      (none' : ∀ c, p c = true → endsArguments c = false) : cs.all (fun c => !endsArguments c) = true := by
    rw [List.all_eq_true] at h ⊢
    intro c hc
    rw [none' c (h c hc)]
    rfl
  have characters : (t.inside ++ '>' :: (t.gap ++ (s.type.base ++ (blanks ++ '<' :: inside)))).all
      (fun c => !endsArguments c) = true := by
    have angles : endsArguments '<' = false ∧ endsArguments '>' = false := by decide
    simp [List.all_cons, List.all_append, inside_characters wf, plain, angles,
      other wf.gap fun c => endsArguments_of_isBlank,
      other blank fun c => endsArguments_of_isBlank,
      other signature.type.characters fun c => endsArguments_of_isDotted]
  obtain ⟨ends, tried⟩ := argumentEnds_inside characters (argumentEnds_call signature behind)
  refine ⟨ends, ?_⟩
  rw [← tried]
  simp [signature_text_eq, SpacedType.argumentText, arguments]

/-- Behind type parameters nothing ends in front of a return type without arguments. -/
theorem argumentEnds_bare (arguments : s.type.arguments = none) :
    argumentEnds (t.gap ++ s.text behind) = [] := by
  have whole : t.gap ++ s.text behind = (t.gap ++ (s.type.base ++ (arrayText s.type.arrays ++
      (s.call.gap ++ (s.call.name ++ s.call.space))))) ++ '(' :: behind := by
    simp [signature_text_eq, SpacedType.argumentText, arguments, Call.text]
  rw [whole, argumentEnds_before (c := '(') (by decide)]
  simp only [List.mem_append, not_or]
  have call := not_mem_call signature
  simp only [List.mem_append, not_or] at call
  exact ⟨not_mem_of_all wf.gap (by decide), not_mem_of_all signature.type.characters (by decide),
    not_mem_of_all (arrayText_characters signature.type.arrays) (by decide), call⟩

/-- Behind type parameters no call follows an angle bracket in front of a return type without
arguments. -/
theorem nameBehind?_generic (arguments : s.type.arguments = none) (start typeStart : List Char) :
    (argumentEnds (t.inside ++ '>' :: (t.gap ++ s.text behind))).findSome?
      (nameBehind? start typeStart) = none := by
  rw [List.findSome?_eq_none_iff]
  intro e tried
  have text : t.inside ++ '>' :: (t.gap ++ s.text behind) =
      (t.inside ++ ['>']) ++ (t.gap ++ s.text behind) := by simp
  rw [text] at tried
  obtain later | ⟨z, suffix, rfl⟩ := mem_argumentEnds_append tried
  · rw [argumentEnds_bare wf signature behind arguments] at later
    cases later
  have inside : '(' ∉ t.inside ++ ['>'] := by
    rw [List.mem_append, not_or]
    exact ⟨not_mem_of_all (inside_characters wf) (by decide), by decide⟩
  have front : '(' ∉ z ++ (t.gap ++ s.type.text) := by
    simp only [List.mem_append, not_or]
    exact ⟨fun member => inside (suffix.subset member), not_mem_of_all wf.gap (by decide),
      not_mem_type signature⟩
  have whole : z ++ (t.gap ++ s.text behind) =
      (z ++ (t.gap ++ s.type.text)) ++ s.call.text behind := by simp [Signature.text]
  have dotted := List.all_eq_true.1 signature.type.characters _ (List.head_mem signature.type.nonempty)
  have member : s.type.base.head signature.type.nonempty ∈ z ++ (t.gap ++ s.type.text) := by
    simp [SpacedType.text, List.head_mem]
  rw [whole]
  exact nameBehind?_of_dotted signature.call front member dotted behind start typeStart

end TypeParameters

section Behind

variable {d : Declaration} (wf : d.WellFormed) (behind : List Char) {name gap : List Char}
  (blanks : gap.all isBlank = true)

/-- The texts behind a name that type parameters follow. -/
theorem typeEnds_parameters (blanks : gap.all isBlank = true) {t : TypeParameters}
    (parameters : d.typeParameters = some t)
    (bare : d.modifiers = []) : typeEnds (gap ++ d.text behind) =
      argumentEnds (t.inside ++ '>' :: (t.gap ++ d.signature.text behind)) := by
  have angle : isBlank '<' = false := by decide
  have text : d.text behind = '<' :: (t.inside ++ '>' :: (t.gap ++ d.signature.text behind)) := by
    simp [Declaration.text, Declaration.generic, TypeParameters.text, modifierText, parameters, bare]
  rw [typeEnds, text, @trimStart_blanks _ blanks ('<' :: _) angle]
  rfl

include wf blanks

/-- A modifier takes the declaration behind it along. -/
theorem candidate?_modifier (apart : gap ≠ []) {word : String} (member : word ∈ methodModifiers) :
    candidate? (word.toList ++ (gap ++ d.text behind)) =
      some ⟨word.toList ++ (gap ++ d.text behind), d.signature.type.text, d.signature.call.name,
        behind⟩ := by
  have modifiers : AreModifiers ((word, gap) :: d.modifiers) := by
    rw [AreModifiers, List.forall_mem_cons]
    exact ⟨⟨member, blanks, apart⟩, wf.modifiers⟩
  have text : word.toList ++ (gap ++ d.text behind) =
      modifierText ((word, gap) :: d.modifiers) ++ d.generic behind := by
    simp [Declaration.text, modifierText]
  rw [text, candidate?_generic wf behind modifiers]

variable (apart : gap ≠ []) (dotted : name.all isDotted = true) (nonempty : name ≠ [])

include apart dotted nonempty

omit wf in
/-- In front of a declaration a name that is no modifier may be a return type. -/
theorem candidate?_name (modifier : ¬∃ word ∈ methodModifiers, name = word.toList) :
    candidate? (name ++ (gap ++ d.text behind)) = (typeEnds (gap ++ d.text behind)).findSome?
      (nameBehind? (name ++ (gap ++ d.text behind)) (name ++ (gap ++ d.text behind))) := by
  have ends : (gap ++ d.text behind).head?.any isDotted = false :=
    head?_any_blanks blanks (fun _ => isDotted_of_isBlank) fun empty => absurd empty apart
  have noKeyword : keyword? methodModifiers (name ++ (gap ++ d.text behind)) = none := by
    cases found : keyword? methodModifiers (name ++ (gap ++ d.text behind)) with
    | none => rfl
    | some pair =>
      obtain ⟨member, same, -⟩ := of_keyword?_name dotted nonempty ends found
      exact absurd ⟨_, member, same.symm⟩ modifier
  rw [candidate?_of_keyword?_eq_none noKeyword, behindModifiers?_name dotted nonempty ends]

/-- A name that takes the declaration along begins a candidate that ends with it. -/
theorem candidate?_of_joins (joins : d.Joins name) :
    ∃ k, candidate? (name ++ (gap ++ d.text behind)) = some k ∧ k.behind = behind := by
  by_cases modifier : ∃ word ∈ methodModifiers, name = word.toList
  · obtain ⟨word, member, rfl⟩ := modifier
    exact ⟨_, candidate?_modifier wf behind blanks apart member, rfl⟩
  · have reads := joins.resolve_left modifier
    simp only [Declaration.readsAsArguments, Bool.and_eq_true, List.isEmpty_iff,
      Option.isSome_iff_exists] at reads
    obtain ⟨⟨bare, t, parameters⟩, ⟨argumentGap, inside⟩, arguments⟩ := reads
    obtain ⟨ends, tried⟩ := argumentEnds_generic (wf.typeParameters t parameters) wf.signature behind
      arguments
    rw [candidate?_name behind blanks apart dotted nonempty modifier,
      typeEnds_parameters behind blanks parameters bare, tried, List.findSome?_cons,
      nameBehind?_call wf.signature.call behind _ _ (skipArraySuffixes_signature wf.signature behind)]
    exact ⟨_, rfl, rfl⟩

/-- Any other name begins no candidate. -/
theorem candidate?_of_not_joins (other : ¬d.Joins name) :
    candidate? (name ++ (gap ++ d.text behind)) = none := by
  rw [Declaration.Joins, not_or, Bool.not_eq_true] at other
  obtain ⟨modifier, reads⟩ := other
  by_cases generic : d.modifiers = [] → d.typeParameters = none
  · exact candidate?_directiveName dotted nonempty blanks (follows_declaration wf behind generic)
      (fun empty => absurd empty apart) fun word member same => modifier ⟨word, member, same⟩
  · obtain ⟨bare, given⟩ := Classical.not_imp.1 generic
    obtain ⟨t, parameters⟩ := Option.ne_none_iff_exists'.1 given
    have arguments : d.signature.type.arguments = none := by
      rw [Declaration.readsAsArguments, bare, parameters] at reads
      simpa using reads
    rw [candidate?_name behind blanks apart dotted nonempty modifier,
      typeEnds_parameters behind blanks parameters bare]
    exact nameBehind?_generic (wf.typeParameters t parameters) wf.signature behind arguments _ _

end Behind

variable {source : List Char}

/-- A candidate that ends in some character is followed by what begins behind it. -/
theorem candidates_of_some {front behind : List Char} {b : Char} {k : Candidate}
    (prev : Option Char) (found : candidate? (front ++ b :: behind) = some k)
    (nonempty : front ≠ []) (ends : k.behind = behind) :
    candidates prev (front ++ b :: behind) = (prev, k) :: candidates (some b) behind := by
  cases front with
  | nil => exact absurd rfl nonempty
  | cons c front =>
    rw [List.cons_append] at found ⊢
    rw [candidates_cons_some prev found, ends, List.length_append, List.length_cons, if_pos (by omega)]
    have index : (c :: (front ++ b :: behind))[front.length + (behind.length + 1) - behind.length]? =
        some b := by
      have place : front.length + (behind.length + 1) - behind.length = front.length + 1 := by omega
      rw [place, List.getElem?_cons_succ, List.getElem?_append_right (Nat.le_refl _), Nat.sub_self]
      rfl
    rw [index]

/-- What begins a candidate that ends with a declaration gives at most its head. -/
theorem headsFrom_candidate {d : Declaration} (wf : d.WellFormed) {front behind : List Char}
    {k : Candidate} (found : candidate? (front ++ d.text behind) = some k) (ends : k.behind = behind)
    (prev : Option Char) : headsFrom source prev (front ++ d.text behind) =
      (k.head? source prev).toList ++ headsFrom source (some '(') behind := by
  obtain ⟨lead, nonempty, text⟩ : ∃ lead, lead ≠ [] ∧
      front ++ d.text behind = lead ++ '(' :: behind := by
    refine ⟨front ++ (modifierText d.modifiers ++ (d.typeParameters.elim [] TypeParameters.text ++
      (d.signature.type.text ++ (d.signature.call.gap ++ (d.signature.call.name ++
        d.signature.call.space))))), ?_, ?_⟩
    · simp [wf.signature.call.apart]
    · simp [Declaration.text, Declaration.generic, Signature.text, Call.text]
  rw [text] at found ⊢
  rw [headsFrom, candidates_of_some prev found nonempty ends, List.filterMap_cons]
  dsimp only
  cases k.head? source prev <;> rfl

/-- Behind a name that takes it along, or that ends in one that does, a declaration has no head. -/
theorem headsFrom_joined {d : Declaration} (wf : d.WellFormed) (behind : List Char)
    {name gap back : List Char} (characters : name.all isNameChar = true) (suffix : back <:+ name)
    (nonempty : back ≠ []) (joins : d.Joins back) (blanks : gap.all isBlank = true) (apart : gap ≠ [])
    {prev : Option Char} (inside : insideWord prev = true) :
    headsFrom source prev (name ++ (gap ++ d.text behind)) =
      headsFrom source (some '(') behind := by
  -- The first rest of the name that takes the declaration along stands inside of a word.
  induction name generalizing prev with
  | nil => exact absurd (List.suffix_nil.1 suffix) nonempty
  | cons c name ih =>
    have dotted : (c :: name).all isDotted = true := by
      rw [List.all_eq_true] at characters ⊢
      exact fun d hd => isDotted_of_isNameChar (characters d hd)
    by_cases here : d.Joins (c :: name)
    · obtain ⟨k, found, ends⟩ :=
        candidate?_of_joins wf behind blanks apart dotted (List.cons_ne_nil _ _) here
      rw [← List.append_assoc] at found ⊢
      rw [headsFrom_candidate wf found ends, head?_of_insideWord (Or.inl inside)]
      rfl
    · have none' := candidate?_of_not_joins wf behind blanks apart dotted (List.cons_ne_nil _ _) here
      have later : back <:+ name := by
        obtain same | suffix := List.suffix_cons_iff.1 suffix
        · exact absurd (same ▸ joins) here
        · exact suffix
      rw [List.all_cons, Bool.and_eq_true] at characters
      rw [List.cons_append] at none' ⊢
      rw [← ih characters.2 later (isNameChar_cases characters.1).2, headsFrom,
        candidates_cons_none prev none']
      rfl

/-- Whether a method is read together with the name of its last directive. -/
def Method.isCaught (m : Method) : Bool := m.directives.getLast?.any fun w =>
  w.endsInModifier || (w.arguments.isNone && m.declaration.readsAsArguments)

def Method.isStatement (m : Method) : Bool :=
  (Candidate.mk [] m.declaration.signature.type.text m.declaration.signature.call.name []).isStatement

/-- A rest of the name of a directive takes a declaration along when the name ends in a modifier, or
when the declaration reads as arguments. -/
theorem exists_joins_iff {w : Written} (silent : w.Silent) (d : Declaration) :
    (w.arguments = none ∧ ∃ back, back <:+ w.qualified ∧ back ≠ [] ∧ d.Joins back) ↔
      (w.endsInModifier || (w.arguments.isNone && d.readsAsArguments)) = true := by
  simp only [Written.endsInModifier, Bool.or_eq_true, Bool.and_eq_true, Option.isNone_iff_eq_none,
    List.any_eq_true, List.isSuffixOf_iff_suffix, ← and_or_left]
  refine and_congr_right fun _ => ⟨?_, ?_⟩
  · rintro ⟨back, suffix, -, ⟨word, member, rfl⟩ | reads⟩
    · exact Or.inl ⟨word, member, suffix⟩
    · exact Or.inr reads
  · rintro (⟨word, member, suffix⟩ | reads)
    · exact ⟨word.toList, suffix, (isDotted_of_mem_modifier word member).2, Or.inl ⟨word, member, rfl⟩⟩
    · exact ⟨w.qualified, List.suffix_refl _, silent.named, Or.inr reads⟩

section Lead

variable {m : Method} (wf : m.WellFormed) (behind : List Char)

include wf

/-- Directives are passed over, unless the last one takes the declaration along. -/
theorem headsFrom_lead (shown : m.isCaught = false) {prev : Option Char}
    (outside : insideWord prev = false) : ∃ p, insideWord p = false ∧
      headsFrom source prev (leadText m.directives ++ m.declaration.text behind) =
        headsFrom source p (m.declaration.text behind) := by
  have silent := wf.directives
  have parted := wf.parted
  rw [Method.isCaught] at shown
  obtain empty | ⟨ws, w, directives⟩ := List.eq_nil_or_concat m.directives
  · rw [empty]
    exact ⟨prev, outside, rfl⟩
  rw [List.concat_eq_append] at directives
  rw [directives, List.forall_mem_append, List.forall_mem_singleton] at silent
  rw [directives, List.getLast?_concat, Option.any_some] at shown
  rw [directives, List.getLast?_concat] at parted
  rw [directives, leadText_concat, headsFrom_directives silent.1]
  cases arguments : w.arguments with
  | none =>
    have apart := parted w rfl arguments
    have none' (back : List Char) (suffix : back <:+ w.qualified) (nonempty : back ≠ []) :
        candidate? (back ++ (w.gap ++ m.declaration.text behind)) = none := by
      refine candidate?_of_not_joins wf.declaration behind silent.2.gap apart
        (isDotted_of_suffix silent.2 suffix) nonempty fun joins => ?_
      rw [(exists_joins_iff silent.2 m.declaration).1 ⟨arguments, back, suffix, nonempty, joins⟩]
        at shown
      cases shown
    refine ⟨lastBehind (lastBehind (some '@') w.qualified) w.gap,
      insideWord_lastBehind silent.2.gap fun empty => absurd empty apart, ?_⟩
    rw [text_bare arguments, headsFrom_cons (by decide) (by decide), headsFrom_append_of_none _ none',
      headsFrom_blanks silent.2.gap]
  | some found =>
    refine ⟨lastBehind (some ')') w.gap, insideWord_lastBehind silent.2.gap fun _ => by decide, ?_⟩
    exact headsFrom_arguments silent.2 arguments _ none

/-- A declaration that the last directive takes along is passed over with it. -/
theorem headsFrom_caught (caught : m.isCaught = true) (prev : Option Char) :
    headsFrom source prev (leadText m.directives ++ m.declaration.text behind) =
      headsFrom source (some '(') behind := by
  have silent := wf.directives
  obtain ⟨w, last, takes⟩ := (Option.any_eq_true _ _).1 caught
  obtain ⟨ws, directives⟩ := List.getLast?_eq_some_iff.1 last
  rw [directives, List.forall_mem_append, List.forall_mem_singleton] at silent
  obtain ⟨bare, back, suffix, nonempty, joins⟩ := (exists_joins_iff silent.2 m.declaration).2 takes
  rw [directives, leadText_concat, headsFrom_directives silent.1, text_bare bare,
    headsFrom_cons (by decide) (by decide)]
  exact headsFrom_joined wf.declaration behind silent.2.characters suffix nonempty joins
    silent.2.gap (wf.parted w last bare) (by decide)

end Lead

def Method.head (m : Method) (before : List Char) : MethodHead where
  name := String.ofList m.declaration.signature.call.name
  returnType := String.ofList (squeezeBlanks m.declaration.signature.type.text)
  parameters := String.ofList (trim m.parameters)
  directives := directivesAbove before
  offset := byteLength before
  line := before.count '\n' + 1

section Head

variable {m : Method} (wf : m.WellFormed)

include wf

/-- Behind its parameters stands a clause without calls, and then a stop. -/
theorem continuesHead_clause (rest : List Char) :
    continuesHead (m.space ++ (m.clause ++ (m.ending.text ++ rest))) = true := by
  have stop : ∃ b behind, m.ending.text ++ rest = b :: behind ∧ (b = ';' ∨ b = '\x7b') := by
    cases m.ending with
    | semicolon => exact ⟨_, _, rfl, Or.inl rfl⟩
    | body inside => exact ⟨_, _, rfl, Or.inr rfl⟩
  obtain ⟨b, behind, text, stop⟩ := stop
  rw [continuesHead, trimStart_blanks_append wf.space, Method.clause, text]
  cases m.thrown with
  | none => obtain rfl | rfl := stop <;> rfl
  | some names => rfl

private theorem calm_clause (prev : Option Char) : Calm prev m.clause := by
  refine calm_of_not_mem ?_ prev
  rw [Method.clause]
  cases thrown : m.thrown with
  | none => simp
  | some names =>
    rw [Option.elim_some, List.mem_append, not_or]
    exact ⟨by decide, not_mem_of_all (wf.thrown names thrown) (by decide)⟩

private theorem head?_candidate (before rest : List Char) {prev : Option Char}
    (outside : insideWord prev = false) (words : m.isStatement = false) :
    (Candidate.mk (m.declaration.text (m.behind rest)) m.declaration.signature.type.text
      m.declaration.signature.call.name (m.behind rest)).head?
      (before ++ m.declaration.text (m.behind rest)) prev = some (m.head before) := by
  have guarded : (!insideWord prev &&
      !(Candidate.mk (m.declaration.text (m.behind rest)) m.declaration.signature.type.text
        m.declaration.signature.call.name (m.behind rest)).isStatement) = true := by
    rw [outside]
    exact congrArg (!·) words
  have inside : insideParens? (m.behind rest) =
      some (m.parameters, m.space ++ (m.clause ++ (m.ending.text ++ (m.trail ++ rest)))) :=
    insideParens?_of_enclosed wf.enclosed _
  simp only [Candidate.head?, guarded, inside, continuesHead_clause wf, guard, if_true,
    textBefore_append_self, Option.bind_eq_bind, Option.pure_def, Option.bind_some]
  rfl

/-- Behind the parenthesis before its parameters a method has no head. -/
theorem headsFrom_behind (rest : List Char) :
    headsFrom source (some '(') (m.behind ('\n' :: rest)) = headsFrom source (some '\n') rest := by
  have line (prev : Option Char) :
      headsFrom source prev (m.trail ++ '\n' :: rest) = headsFrom source (some '\n') rest := by
    rw [headsFrom_blanks wf.trail, headsFrom_cons (by decide) (by decide)]
  have closing : isStop ')' = true ∧ isStop ';' = true ∧ isStop '\x7b' = true ∧
      isStop '\x7d' = true := by decide
  rw [Method.behind, headsFrom_calm closing.1 wf.calm, headsFrom_blanks wf.space]
  cases ending : m.ending with
  | semicolon =>
    change headsFrom source _ (m.clause ++ ';' :: (m.trail ++ '\n' :: rest)) = _
    rw [headsFrom_calm closing.2.1 (calm_clause wf _), line]
  | body inside =>
    have body : Calm (some '\x7b') inside := by
      have body := wf.body
      rwa [ending] at body
    have text : (Ending.body inside).text ++ (m.trail ++ '\n' :: rest) =
        '\x7b' :: (inside ++ '\x7d' :: (m.trail ++ '\n' :: rest)) := by
      simp [Ending.text]
    rw [text, headsFrom_calm closing.2.2.1 (calm_clause wf _), headsFrom_calm closing.2.2.2 body, line]

def Method.isHidden (m : Method) : Bool := m.isCaught || m.isStatement

/-- A line gives the head of its method, unless that is hidden. -/
theorem headsFrom_method (before rest : List Char) {prev : Option Char}
    (outside : insideWord prev = false) :
    headsFrom (before ++ (m.text ++ '\n' :: rest)) prev (m.text ++ '\n' :: rest) =
      (if m.isHidden then [] else [m.head (before ++ m.lead)]) ++
        headsFrom (before ++ (m.text ++ '\n' :: rest)) (some '\n') rest := by
  obtain ⟨source, whole⟩ : ∃ source, source = before ++ (m.text ++ '\n' :: rest) := ⟨_, rfl⟩
  have declaration : source =
      (before ++ m.lead) ++ m.declaration.text (m.behind ('\n' :: rest)) := by
    rw [whole, Method.text_append]
    simp [Method.lead]
  rw [← whole, Method.text_append, headsFrom_blanks wf.indent, ← headsFrom_behind wf rest,
    Method.isHidden]
  cases caught : m.isCaught with
  | true =>
    rw [headsFrom_caught wf _ caught]
    rfl
  | false =>
    obtain ⟨p, outside', lead⟩ := @headsFrom_lead source _ wf (m.behind ('\n' :: rest)) caught _
      (insideWord_lastBehind wf.indent fun _ => outside)
    have single := @headsFrom_candidate source _ wf.declaration [] _ _
      (candidate?_declaration wf.declaration (m.behind ('\n' :: rest))) rfl p
    rw [List.nil_append] at single
    rw [lead, single, Bool.false_or]
    congr 1
    cases words : m.isStatement with
    | true =>
      have none' : (Candidate.mk (m.declaration.text (m.behind ('\n' :: rest)))
          m.declaration.signature.type.text m.declaration.signature.call.name
          (m.behind ('\n' :: rest))).head? source p = none :=
        head?_of_insideWord (Or.inr words)
      rw [none']
      rfl
    | false =>
      rw [declaration, head?_candidate wf _ _ outside' words]
      rfl

end Head

end ApiCollection.Java
