import ApiCollection.Proofs.FieldSweep
import ApiCollection.Proofs.QuotedReading

/-!
# Searching for a record

The components of a record are searched for in the whole text. They are read behind the keyword, a
name and an opening bracket, so that none are found in texts without such a head, nor in front of a
class body and in declarations, where no parenthesis follows.
-/

namespace ApiCollection

open Text Java

namespace Dto

/-- What stands behind the keyword and the name of a record. -/
def behindRecord? (cs : List Char) : Option (List Char) :=
  (keyword? ["record"] cs).bind fun found => (word? found.2).map Prod.snd

def componentsBehind? (left : List Char) : Option (List Char) := do
  let behind ← skipParameters? (trimStart left)
  let inside ← afterChar? '(' (trimStart behind)
  let _ ← afterChar? ')' (inside.dropWhile (· != ')'))
  return inside.takeWhile (· != ')')

theorem recordComponents?_eq (cs : List Char) :
    recordComponents? cs = (behindRecord? cs).bind componentsBehind? := by
  rw [behindRecord?, Option.bind_assoc]
  simp only [Option.bind_map]
  rfl

/-- The brackets that may follow the name of a record. -/
def opensComponents (c : Char) : Bool := c == '<' || c == '('

private theorem opensComponents_of_isDotted (c : Char) (h : isDotted c = true) :
    opensComponents c = false := by
  by_contra opens
  rw [Bool.not_eq_false, opensComponents, Bool.or_eq_true, beq_iff_eq, beq_iff_eq] at opens
  obtain rfl | rfl := opens <;> exact absurd h (by decide)

/-- Whether a text begins like a record, up to the bracket behind its name. -/
def opensRecord (cs : List Char) : Bool :=
  (behindRecord? cs).any fun left => (trimStart left).head?.any opensComponents

/-- A text without the head of a record. -/
def Recordless (t : List Char) : Prop := ∀ s ∈ t.tails, opensRecord s = false

instance (t : List Char) : Decidable (Recordless t) :=
  inferInstanceAs (Decidable (∀ s ∈ t.tails, _))

private theorem componentsBehind?_eq_none {left : List Char}
    (closed : (trimStart left).head?.any opensComponents = false) :
    componentsBehind? left = none := by
  have other {c : Char} (bracket : opensComponents c = true) :
      afterChar? c (trimStart left) = none := by
    refine afterChar?_of_head? fun head => ?_
    rw [head, Option.any_some, bracket] at closed
    cases closed
  simp only [componentsBehind?, skipParameters?, other (c := '<') rfl, Option.bind_eq_bind,
    Option.bind_some, trimStart_of_head? (head?_trimStart left), other (c := '(') rfl,
    Option.bind_none]

theorem recordComponents?_of_opensRecord {cs : List Char} (h : opensRecord cs = false) :
    recordComponents? cs = none := by
  rw [recordComponents?_eq]
  rw [opensRecord] at h
  cases behind : behindRecord? cs with
  | none => rfl
  | some left =>
    rw [behind] at h
    exact componentsBehind?_eq_none h

section Stop

variable {b : Char} (word : isWordChar b = false) (blank : isBlank b = false)

include word blank

theorem behindRecord?_stop (s rest : List Char) :
    behindRecord? (s ++ b :: rest) = (behindRecord? s).map (· ++ b :: rest) := by
  rw [behindRecord?, behindRecord?, keyword?_stop (by decide) word blank]
  cases keyword? ["record"] s with
  | none => rfl
  | some found =>
    simp only [Option.map_some, Option.bind_some, word?_stop word, Option.map_map]
    rfl

/-- What stands behind a character of another kind does not matter for heads in front of it. -/
theorem opensRecord_stop (bracket : opensComponents b = false) (s rest : List Char) :
    opensRecord (s ++ b :: rest) = opensRecord s := by
  rw [opensRecord, opensRecord, behindRecord?_stop word blank, Option.any_map]
  congr 1
  funext left
  rw [trimStart, dropWhile_stop blank]
  exact head?_any_stop bracket

end Stop

/-- Whether a closing angle bracket follows each opening one. -/
def Closed (t : List Char) : Prop := ∀ back, '<' :: back <:+ t → '>' ∈ back

private theorem suffix_behindRecord? {cs left : List Char} (h : behindRecord? cs = some left) :
    left <:+ cs := by
  obtain ⟨⟨word, rest⟩, keyword, h⟩ := Option.bind_eq_some_iff.1 h
  obtain ⟨⟨name, left'⟩, read, rfl⟩ := Option.map_eq_some_iff.1 h
  exact (suffix_word? read).trans (suffix_keyword? keyword)

section Closed

variable {t : List Char} (paren : '(' ∉ t) {b : Char} (blank : isBlank b = false)
  (bracket : opensComponents b = false) {s : List Char} (suffix : s <:+ t) (rest : List Char)

include paren blank bracket suffix

private theorem afterChar?_paren : afterChar? '(' (trimStart (s ++ b :: rest)) = none := by
  have other : b ≠ '(' := by
    rintro rfl
    cases bracket
  have absent : afterChar? '(' (trimStart s) = none := by
    refine afterChar?_of_head? fun head => paren ?_
    exact ((suffix_trimStart s).trans suffix).mem (List.mem_of_head? head)
  rw [trimStart, dropWhile_stop blank, afterChar?_stop other]
  exact congrArg _ absent

/-- Behind parameters that end in front of a place comes no parenthesis before it. -/
theorem componentsBehind?_of_closed (closed : Closed t) :
    componentsBehind? (s ++ b :: rest) = none := by
  have other : b ≠ '<' := by
    rintro rfl
    cases bracket
  have inside := (suffix_trimStart s).trans suffix
  have none' {v : List Char} (suffix : v <:+ t) :=
    afterChar?_paren paren blank bracket suffix rest
  have trimmed : trimStart (s ++ b :: rest) = trimStart s ++ b :: rest := dropWhile_stop blank
  rw [componentsBehind?, trimmed, skipParameters?, afterChar?_stop other]
  cases opens : afterChar? '<' (trimStart s) with
  | none =>
    simp only [Option.map_none, Option.bind_eq_bind, Option.bind_some, none' inside,
      Option.bind_none]
  | some parameters =>
    have text := afterChar?_eq_some_iff.1 opens
    rw [text] at inside
    obtain ⟨left, dropped⟩ := exists_dropWhile_ne (closed parameters inside)
    have suffix' : left <:+ t := (List.suffix_cons '>' left).trans
      ((dropped ▸ List.dropWhile_suffix _).trans ((List.suffix_cons '<' parameters).trans inside))
    have dropped' : (parameters ++ b :: rest).dropWhile (· != '>') =
        '>' :: (left ++ b :: rest) := by
      rw [List.dropWhile_append, dropped]
      rfl
    have closes : afterChar? '>' ('>' :: (left ++ b :: rest)) = some (left ++ b :: rest) := rfl
    simp only [Option.map_some, dropped', closes, Option.bind_eq_bind, Option.bind_some,
      none' suffix', Option.bind_none]

/-- No components are read where no parenthesis follows. -/
theorem recordComponents?_of_closed (closed : Closed t) (word : isWordChar b = false) :
    recordComponents? (s ++ b :: rest) = none := by
  rw [recordComponents?_eq, behindRecord?_stop word blank]
  cases behind : behindRecord? s with
  | none => rfl
  | some left =>
    exact componentsBehind?_of_closed paren blank bracket
      ((suffix_behindRecord? behind).trans suffix) rest closed

end Closed

private theorem closed_of_not_mem {t : List Char} (absent : '<' ∉ t) : Closed t :=
  fun _ suffix => absurd (suffix.mem List.mem_cons_self) absent

private theorem closed_append {t u : List Char} (left : Closed t) (right : Closed u) :
    Closed (t ++ u) := by
  intro back suffix
  obtain behind | ⟨front, inside, same⟩ := suffix_append_cases suffix
  · exact right back behind
  · cases front with
    | nil =>
      apply right back
      rw [same]
      exact List.suffix_refl u
    | cons c front =>
      obtain ⟨rfl, rfl⟩ := List.cons.inj same
      exact List.mem_append_left u (left front inside)

private theorem closed_arguments (inside : List Char) : Closed ('<' :: (inside ++ ['>'])) := by
  intro back suffix
  rw [← List.cons_append] at suffix
  obtain behind | ⟨front, -, same⟩ := suffix_append_cases suffix
  · have angle := behind.mem List.mem_cons_self
    exact absurd angle (by decide)
  · cases front with
    | nil => exact absurd (List.cons.inj same).1 (by decide)
    | cons c front =>
      rw [(List.cons.inj same).2]
      exact List.mem_append_right front (List.mem_singleton_self '>')

def NoRecord (cs : List Char) : Prop := ∀ s, s <:+ cs → recordComponents? s = none

theorem find?_of_noRecord {cs : List Char} (h : NoRecord cs) :
    find? (fun _ cs => recordComponents? cs) cs = none := by
  cases found : find? (fun _ cs => recordComponents? cs) cs with
  | none => rfl
  | some components =>
    obtain ⟨-, s, suffix, read⟩ := exists_of_findFrom found
    rw [h s suffix] at read
    cases read

theorem noRecord_append {t rest : List Char}
    (none : ∀ s, s <:+ t → recordComponents? (s ++ rest) = none) (h : NoRecord rest) :
    NoRecord (t ++ rest) := by
  intro s suffix
  obtain behind | ⟨back, inside, rfl⟩ := suffix_append_cases suffix
  · exact h s behind
  · exact none back inside

private theorem recordComponents?_of_keyword? {cs : List Char}
    (none : keyword? ["record"] cs = none) :
    recordComponents? cs = Option.none := by
  rw [recordComponents?, none]
  rfl

theorem noRecord_cons {c : Char} {rest : List Char} (word : isWordChar c = false)
    (h : NoRecord rest) : NoRecord (c :: rest) := by
  intro s suffix
  obtain rfl | behind := List.suffix_cons_iff.1 suffix
  · exact recordComponents?_of_keyword? (keyword?_unword (by decide) word)
  · exact h s behind

theorem noRecord_blanks {blanks rest : List Char} (blank : blanks.all isBlank = true)
    (h : NoRecord rest) : NoRecord (blanks ++ rest) := by
  induction blanks with
  | nil => exact h
  | cons c blanks ih =>
    rw [List.all_cons, Bool.and_eq_true] at blank
    exact noRecord_cons (of_isBlank blank.1).1 (ih blank.2)

/-- Up to a character that nothing is read over, a text without heads of records has no record. -/
theorem noRecord_recordless {t rest : List Char} (recordless : Recordless t) {b : Char}
    (word : isWordChar b = false) (blank : isBlank b = false) (bracket : opensComponents b = false)
    (h : NoRecord rest) : NoRecord (t ++ b :: rest) := by
  apply noRecord_append _ (noRecord_cons word h)
  intro s suffix
  apply recordComponents?_of_opensRecord
  rw [opensRecord_stop word blank bracket]
  exact recordless s ((List.mem_tails _ _).2 suffix)

def Unopened (cs : List Char) : Prop := ∀ word left, word? cs = some (word, left) →
  (trimStart left).head?.any opensComponents = false

/-- Behind a name with blanks there is nothing, or the name is the keyword and the next word is
skipped. -/
theorem behindRecord?_name {name gap rest : List Char} (dotted : name.all isDotted = true)
    (blank : gap.all isBlank = true) (apart : gap ≠ []) (begins : rest.head?.any isBlank = false) :
    behindRecord? (name ++ (gap ++ rest)) = none ∨
      behindRecord? (name ++ (gap ++ rest)) = (word? rest).map Prod.snd := by
  rw [behindRecord?, keyword?_name (by decide) dotted blank apart begins]
  split
  · exact .inr rfl
  · exact .inl rfl

private theorem opensRecord_name {name gap rest : List Char} (dotted : name.all isDotted = true)
    (blank : gap.all isBlank = true) (apart : gap ≠ []) (begins : rest.head?.any isBlank = false)
    (unopened : Unopened rest) : opensRecord (name ++ (gap ++ rest)) = false := by
  rw [opensRecord]
  obtain none | some' := behindRecord?_name dotted blank apart begins
  · rw [none]
    rfl
  · rw [some']
    cases read : word? rest with
    | none => rfl
    | some found => exact unopened found.1 found.2 read

/-- Without blanks there is no keyword. -/
theorem keyword?_solid {keywords : List String} (words : AreWords keywords) {cs : List Char}
    (dotted : cs.all isDotted = true) : keyword? keywords cs = none := by
  have none : afterBlanks? (cs.dropWhile isWordChar) = Option.none := by
    apply if_neg
    intro blank
    obtain ⟨c, head, blank⟩ := (Option.any_eq_true _ _).1 blank
    have member := (List.dropWhile_suffix isWordChar).mem (List.mem_of_mem_head? head)
    rw [isBlank_of_isDotted (List.all_eq_true.1 dotted c member)] at blank
    cases blank
  rw [keyword?_eq words, none]
  exact ite_self _

/-- In front of the arguments of a directive stands only one word. -/
theorem behindRecord?_arguments {name space : List Char} (dotted : name.all isDotted = true)
    (blank : space.all isBlank = true) : behindRecord? (name ++ space) = none := by
  by_cases together : space = []
  · rw [together, List.append_nil, behindRecord?, keyword?_solid (by decide) dotted]
    rfl
  · have read := @behindRecord?_name name space [] dotted blank together rfl
    rw [List.append_nil] at read
    exact read.elim id id

variable {w : Written}

private theorem noRecord_written (standing : w.Standing)
    (recordless : ∀ arguments ∈ w.arguments, Recordless arguments.2) {rest : List Char}
    (begins : rest.head?.any isBlank = false) (unopened : Unopened rest) (h : NoRecord rest) :
    NoRecord (w.text ++ (w.gap ++ rest)) := by
  have behind := noRecord_blanks standing.gap h
  have part {s : List Char} (suffix : s <:+ w.qualified) : s.all isDotted = true :=
    all_of_suffix standing.characters suffix
  cases arguments : w.arguments with
  | none =>
    rw [text_of_no_arguments arguments]
    apply noRecord_cons (by decide)
    apply noRecord_append _ behind
    intro s suffix
    apply recordComponents?_of_opensRecord
    exact opensRecord_name (part suffix) standing.gap standing.apart begins unopened
  | some found =>
    obtain ⟨space, inside⟩ := found
    have blank := standing.space _ arguments
    have text : w.text ++ (w.gap ++ rest) =
        '@' :: ((w.qualified ++ space) ++ '(' :: (inside ++ ')' :: (w.gap ++ rest))) := by
      simp [text_of_arguments arguments, Written.opening]
    rw [text]
    apply noRecord_cons (by decide)
    apply noRecord_append
    · intro s suffix
      have none : behindRecord? s = Option.none := by
        obtain within | ⟨back, inside', rfl⟩ := suffix_append_cases suffix
        · exact @behindRecord?_arguments [] s rfl (all_of_suffix blank within)
        · exact behindRecord?_arguments (part inside') blank
      rw [recordComponents?_eq, behindRecord?_stop (by decide) (by decide), none]
      rfl
    · apply noRecord_cons (by decide)
      apply noRecord_recordless (recordless _ arguments) (by decide) (by decide) (by decide) behind

private theorem unopened_of_unword {cs : List Char} (h : cs.head?.any isWordChar = false) :
    Unopened cs := by
  intro word left read
  rw [word?, run?, if_neg (ne_true_of_eq_false h)] at read
  cases read

/-- In front of a member there is no record. -/
theorem noRecord_leadText {ws : List Written} (standing : ∀ w ∈ ws, w.Standing)
    (recordless : ∀ w ∈ ws, ∀ arguments ∈ w.arguments, Recordless arguments.2) {rest : List Char}
    (begins : rest.head?.any isBlank = false) (unopened : Unopened rest) (h : NoRecord rest) :
    NoRecord (leadText ws ++ rest) := by
  induction ws with
  | nil => exact h
  | cons w ws ih =>
    rw [List.forall_mem_cons] at standing recordless
    obtain ⟨begins', unopened'⟩ : (leadText ws ++ rest).head?.any isBlank = false ∧
        Unopened (leadText ws ++ rest) := by
      cases ws with
      | nil => exact ⟨begins, unopened⟩
      | cons v ws => exact ⟨rfl, unopened_of_unword rfl⟩
    rw [leadText_cons]
    exact noRecord_written standing.1 recordless.1 begins' unopened' (ih standing.2 recordless.2)

end Dto

namespace FieldDeclaration

def isOuter (c : Char) : Bool := isDotted c || isBlank c || c == '[' || c == ']'

def lead (f : FieldDeclaration) : List Char :=
  f.access.toList ++ (f.space ++ (modifierText f.modifiers ++ f.type.base))

def rear (f : FieldDeclaration) : List Char :=
  (List.replicate f.type.arrays "[]".toList).flatten ++ (f.gap ++ (f.name ++ f.trail))

def front (f : FieldDeclaration) : List Char :=
  f.lead ++ (f.type.arguments.elim [] (fun inside => '<' :: (inside ++ ['>'])) ++ f.rear)

private theorem text_append (f : FieldDeclaration) (rest : List Char) :
    f.text ++ rest = f.front ++ f.sign :: (f.behind ++ rest) := by
  simp [text, body, front, lead, rear, ReturnType.text]

variable {f : FieldDeclaration} (wf : f.WellFormed)

include wf

theorem characters_lead : f.lead.all isOuter = true := by
  have blank {t : List Char} (h : t.all isBlank = true) : t.all isOuter = true :=
    all_wider (fun c blank => by simp [isOuter, blank]) h
  have dotted {t : List Char} (h : t.all isDotted = true) : t.all isOuter = true :=
    all_wider (fun c dotted => by simp [isOuter, dotted]) h
  have word {t : List Char} (h : t.all isWordChar = true) : t.all isOuter = true :=
    dotted (all_wider (fun _ => isDotted_of_isWordChar) h)
  have modifiers : (modifierText f.modifiers).all isOuter = true := by
    rw [modifierText, List.all_flatMap, List.all_eq_true]
    intro m member
    rw [List.all_append, Bool.and_eq_true]
    have words := Dto.areWords_fieldModifiers m.1 (mem_modifiers wf member)
    exact ⟨word (words m.1 (List.mem_singleton_self _)).1, blank (wf.gaps m member).1⟩
  rw [lead, List.all_append, List.all_append, List.all_append,
    word (Dto.areWords_accessModifiers f.access wf.access).1, blank wf.space, modifiers,
    dotted wf.type.characters]
  rfl

theorem characters_rear : f.rear.all isOuter = true := by
  rw [List.all_eq_true]
  intro c member
  obtain suffix | member := List.mem_append.1 member
  · have brackets : "[]".toList.all isOuter = true := by decide
    exact List.all_eq_true.1 brackets c (mem_arrays suffix)
  obtain blank | member := List.mem_append.1 member
  · simp [isOuter, List.all_eq_true.1 wf.gap c blank]
  obtain letter | blank := List.mem_append.1 member
  · simp [isOuter, isDotted_of_isWordChar (List.all_eq_true.1 wf.name c letter)]
  · simp [isOuter, List.all_eq_true.1 wf.trail c blank]

private theorem closed_front : Dto.Closed f.front := by
  have outer {t : List Char} (h : t.all isOuter = true) : Dto.Closed t :=
    Dto.closed_of_not_mem (not_mem_of_all h (by decide))
  apply Dto.closed_append (outer (characters_lead wf))
  apply Dto.closed_append _ (outer (characters_rear wf))
  cases f.type.arguments with
  | none => exact Dto.closed_of_not_mem List.not_mem_nil
  | some inside => exact Dto.closed_arguments inside

private theorem paren_front : '(' ∉ f.front := by
  have outer {t : List Char} (h : t.all isOuter = true) : '(' ∉ t := not_mem_of_all h (by decide)
  rw [front, List.mem_append, List.mem_append, not_or, not_or]
  refine ⟨outer (characters_lead wf), ?_, outer (characters_rear wf)⟩
  cases arguments : f.type.arguments with
  | none => exact List.not_mem_nil
  | some inside =>
    have letters := wf.type.arguments inside arguments
    have absent : '(' ∉ inside := not_mem_of_all letters (by decide)
    simpa using absent

/-- A declaration has no record in it but what its initialiser may have. -/
theorem noRecord_text (recordless : ∀ t ∈ f.initialiser, Dto.Recordless t) {rest : List Char}
    (h : Dto.NoRecord rest) : Dto.NoRecord (f.text ++ rest) := by
  have sign : isBlank f.sign = false ∧ isWordChar f.sign = false ∧
      Dto.opensComponents f.sign = false := by
    obtain sign | sign := f.sign_cases <;> rw [sign] <;> decide
  have behind : Dto.NoRecord (f.behind ++ rest) := by
    rw [FieldDeclaration.behind]
    cases initialiser : f.initialiser with
    | none => exact h
    | some t =>
      rw [Option.elim_some, List.append_assoc]
      apply Dto.noRecord_recordless (recordless t initialiser) (by decide) (by decide) (by decide) h
  rw [text_append]
  apply Dto.noRecord_append _ (Dto.noRecord_cons sign.2.1 behind)
  intro s suffix
  exact Dto.recordComponents?_of_closed (paren_front wf) sign.1 sign.2.2 suffix _
    (closed_front wf) sign.2.1

/-- Behind its access modifier a declaration opens no parameters. -/
theorem unopened_text (rest : List Char) : Dto.Unopened (f.text ++ rest) := by
  intro word left read
  obtain ⟨letters, nonempty⟩ := Dto.areWords_accessModifiers f.access wf.access
  rw [text_eq, word?, run?_append letters nonempty (head?_word_apart wf.space wf.spaced _)] at read
  rw [← (Prod.mk.inj (Option.some.inj read)).2, trimStart_blanks_append wf.space]
  apply Dto.head?_trimStart_of_dotted _ (head?_behindAccess wf rest)
  exact Dto.opensComponents_of_isDotted

end FieldDeclaration

end ApiCollection
