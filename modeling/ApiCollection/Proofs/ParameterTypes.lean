import ApiCollection.Proofs.AttributeLists

/-!
# Types of parameters

A parameter is cut into words, and the words of its type are joined again by single blanks. A type
that is written with single blanks, namely behind the commas of its arguments and around the words
of its wildcards, comes back as it was written. None of its words is the modifier `final` unless the
whole type is.
-/

namespace ApiCollection.Java

open Text

def endsAsFinal (w : List Char) : Bool := w.getLast? == "final".toList.getLast?

/-- Texts of words with single blanks between them, of which none but the last one may end as
`final` does. -/
def Phrase (cs : List Char) : Prop :=
  ∃ ws w, cs = joinWith [' '] (ws ++ [w]) ∧ (∀ v ∈ ws, Solid v ∧ endsAsFinal v = false) ∧ Solid w

theorem phrase_of_solid {cs : List Char} (h : Solid cs) : Phrase cs :=
  ⟨[], cs, (joinWith_singleton _ _).symm, nofun, h⟩

theorem words_of_solid_word {w : List Char} (h : Solid w) : words w = [w] := by
  rw [words_of_solid h.2]
  simpa using h.1

private theorem words_joinWith {ws : List (List Char)} (solid : ∀ w ∈ ws, Solid w) :
    words (joinWith [' '] ws) = ws := by
  induction ws with
  | nil => rfl
  | cons w ws ih =>
    rw [List.forall_mem_cons] at solid
    cases ws with
    | nil => rw [joinWith_singleton, words_of_solid_word solid.1]
    | cons v ws =>
      rw [joinWith_cons_cons, List.append_assoc, List.singleton_append,
        words_append_cons (by decide), ih solid.2, words_of_solid_word solid.1]
      rfl

theorem endsAsFinal_append (xs : List Char) {ys : List Char} (h : ys ≠ []) :
    endsAsFinal (xs ++ ys) = endsAsFinal ys := by
  rw [endsAsFinal, endsAsFinal, List.getLast?_append_of_ne_nil xs h]

/-- The last word goes on with the first word of what follows without a blank. -/
theorem joinWith_glue (ws : List (List Char)) (w v : List Char) (vs : List (List Char)) :
    joinWith [' '] (ws ++ [w]) ++ joinWith [' '] (v :: vs) =
      joinWith [' '] (ws ++ (w ++ v) :: vs) := by
  have last : w ++ joinWith [' '] (v :: vs) = joinWith [' '] ((w ++ v) :: vs) := by
    cases vs with
    | nil => rw [joinWith_singleton, joinWith_singleton]
    | cons u vs => simp [joinWith_cons_cons]
  by_cases empty : ws = []
  · rw [empty, List.nil_append, List.nil_append, joinWith_singleton, last]
  · rw [joinWith_append _ empty (List.cons_ne_nil _ _),
      joinWith_append _ empty (List.cons_ne_nil _ _), joinWith_singleton, List.append_assoc, last]

theorem endsAsFinal_joinWith (ws : List (List Char)) {w : List Char} (h : w ≠ []) :
    endsAsFinal (joinWith [' '] (ws ++ [w])) = endsAsFinal w := by
  by_cases empty : ws = []
  · rw [empty, List.nil_append, joinWith_singleton]
  · rw [joinWith_append _ empty (List.cons_ne_nil _ _), joinWith_singleton, endsAsFinal_append _ h]

theorem Phrase.append {xs ys : List Char} (h : Phrase xs) (h' : Phrase ys) : Phrase (xs ++ ys) := by
  obtain ⟨ws, w, rfl, inner, last⟩ := h
  obtain ⟨us, u, rfl, inner', last'⟩ := h'
  cases us with
  | nil => exact ⟨ws, w ++ u, joinWith_glue ws w u [], inner, last.append last'⟩
  | cons v us =>
    rw [List.forall_mem_cons] at inner'
    refine ⟨ws ++ (w ++ v) :: us, u, ?_, ?_, last'⟩
    · rw [List.cons_append, joinWith_glue, List.append_assoc, List.cons_append]
    · rw [List.forall_mem_append, List.forall_mem_cons, endsAsFinal_append w inner'.1.1.1]
      exact ⟨inner, ⟨last.append inner'.1.1, inner'.1.2⟩, inner'.2⟩

/-- A phrase may follow behind a blank when the last word in front of it does not end as `final`. -/
theorem Phrase.apart {xs ys : List Char} (h : Phrase xs) (other : endsAsFinal xs = false)
    (h' : Phrase ys) : Phrase (xs ++ ' ' :: ys) := by
  obtain ⟨ws, w, rfl, inner, last⟩ := h
  obtain ⟨us, u, rfl, inner', last'⟩ := h'
  have ends : endsAsFinal w = false := by rwa [endsAsFinal_joinWith _ last.1] at other
  refine ⟨ws ++ w :: us, u, ?_, ?_, last'⟩
  · have split : ws ++ w :: us ++ [u] = (ws ++ [w]) ++ (us ++ [u]) := by simp
    rw [split, joinWith_append _ (List.append_ne_nil_of_right_ne_nil _ (List.cons_ne_nil _ _))
      (List.append_ne_nil_of_right_ne_nil _ (List.cons_ne_nil _ _)), List.append_assoc]
    rfl
  · rw [List.forall_mem_append, List.forall_mem_cons]
    exact ⟨inner, ⟨last, ends⟩, inner'⟩

/-- The words of a phrase make it up again, and `final` is among them only as the last one. -/
theorem Phrase.words {cs : List Char} (h : Phrase cs) : joinWith [' '] (words cs) = cs ∧
    Text.words cs ≠ [] ∧ ("final".toList ∈ Text.words cs → endsAsFinal cs = true) := by
  obtain ⟨ws, w, rfl, inner, last⟩ := h
  have solid : ∀ v ∈ ws ++ [w], Solid v := by
    rw [List.forall_mem_append, List.forall_mem_singleton]
    exact ⟨fun v member => (inner v member).1, last⟩
  rw [words_joinWith solid]
  refine ⟨rfl, by simp, fun member => ?_⟩
  obtain front | back := List.mem_append.1 member
  · exact absurd (inner _ front).2 (by decide)
  · rw [← List.mem_singleton.1 back, endsAsFinal_joinWith _ (by decide)]
    rfl

mutual

/-- A type as it is written in a parameter list: a name that may be qualified, arguments, and array
suffixes. -/
inductive PlainType where
  | mk (name : List Char) (arguments : List PlainArgument) (suffixes : List ArraySuffix)

/-- An argument of a type, which may be a wildcard with or without a bound. -/
inductive PlainArgument where
  | type (type : PlainType)
  | bounded (word : BoundWord) (bound : PlainType)
  | unbounded

end

def listed (texts : List (List Char)) : List Char :=
  if texts.isEmpty then [] else '<' :: (joinWith [',', ' '] texts ++ ['>'])

theorem listed_nil : listed [] = [] := rfl

theorem listed_cons (t : List Char) (texts : List (List Char)) :
    listed (t :: texts) = '<' :: (joinWith [',', ' '] (t :: texts) ++ ['>']) := rfl

mutual

def PlainType.text : PlainType → List Char
  | ⟨name, arguments, suffixes⟩ =>
    name ++ (listed (plainTexts arguments) ++ suffixes.flatMap ArraySuffix.text)

def PlainArgument.text : PlainArgument → List Char
  | .type t => t.text
  | .bounded word t => ['?'] ++ ' ' :: (word.text ++ ' ' :: t.text)
  | .unbounded => ['?']

def plainTexts : List PlainArgument → List (List Char)
  | [] => []
  | a :: rest => a.text :: plainTexts rest

end

theorem bounded_text (word : BoundWord) (t : PlainType) : (PlainArgument.bounded word t).text =
    ('?' :: ' ' :: (word.text ++ [' '])) ++ t.text := by
  simp [PlainArgument.text]

mutual

def PlainType.isWellFormed : PlainType → Bool
  | ⟨name, arguments, _⟩ => !name.isEmpty && name.all isQualifiedLetter && arePlain arguments

def PlainArgument.isWellFormed : PlainArgument → Bool
  | .type t => t.isWellFormed
  | .bounded _ t => t.isWellFormed
  | .unbounded => true

def arePlain : List PlainArgument → Bool
  | [] => true
  | a :: rest => a.isWellFormed && arePlain rest

end

theorem PlainType.isWellFormed_iff {name : List Char} {arguments : List PlainArgument}
    {suffixes : List ArraySuffix} : (PlainType.mk name arguments suffixes).isWellFormed = true ↔
      (name ≠ [] ∧ name.all isQualifiedLetter = true) ∧ arePlain arguments = true := by
  rw [isWellFormed, Bool.and_eq_true, Bool.and_eq_true, Bool.not_eq_true',
    List.isEmpty_eq_false_iff]

theorem all_suffixes {p : Char → Bool} (h : "[].".toList.all p = true)
    (suffixes : List ArraySuffix) : (suffixes.flatMap ArraySuffix.text).all p = true := by
  have signs : p '[' = true ∧ p ']' = true ∧ p '.' = true := by simpa using h
  rw [List.all_flatMap, List.all_eq_true]
  intro suffix _
  cases suffix <;> simp [ArraySuffix.text, signs]

theorem solid_of_letters {name : List Char} (nonempty : name ≠ [])
    (letters : name.all isQualifiedLetter = true) : Solid name :=
  ⟨nonempty, fun c member => isBlank_of_isQualifiedLetter (List.all_eq_true.1 letters c member)⟩

/-- Characters of types: those of names, brackets, commas, question marks and single blanks. -/
def isTypeChar (c : Char) : Bool := isQualifiedLetter c || "<>[],? ".toList.contains c

private theorem isTypeChar_of_isQualifiedLetter {c : Char} (h : isQualifiedLetter c = true) :
    isTypeChar c = true := Bool.or_eq_true_iff.2 (.inl h)

private theorem all_listed {texts : List (List Char)} (h : ∀ t ∈ texts, t.all isTypeChar = true) :
    (listed texts).all isTypeChar = true := by
  cases texts with
  | nil => rfl
  | cons t texts =>
    rw [listed_cons, List.all_cons, List.all_append, all_joinWith (by decide) h]
    decide

mutual

theorem isTypeChar_text (t : PlainType) (h : t.isWellFormed = true) :
    t.text.all isTypeChar = true := by
  obtain ⟨name, arguments, suffixes⟩ := t
  obtain ⟨⟨-, letters⟩, inner⟩ := PlainType.isWellFormed_iff.1 h
  rw [PlainType.text, List.all_append, List.all_append,
    all_wider (fun _ => isTypeChar_of_isQualifiedLetter) letters,
    all_listed (isTypeChar_texts arguments inner), all_suffixes (by decide)]
  rfl

theorem isTypeChar_argument (a : PlainArgument) (h : a.isWellFormed = true) :
    a.text.all isTypeChar = true := by
  cases a with
  | type t => exact isTypeChar_text t h
  | bounded word t =>
    rw [bounded_text, List.all_append, isTypeChar_text t h, Bool.and_true]
    cases word <;> decide
  | unbounded => decide

theorem isTypeChar_texts (arguments : List PlainArgument) (h : arePlain arguments = true) :
    ∀ t ∈ plainTexts arguments, t.all isTypeChar = true := by
  cases arguments with
  | nil => exact nofun
  | cons a rest =>
    rw [arePlain, Bool.and_eq_true] at h
    rw [plainTexts, List.forall_mem_cons]
    exact ⟨isTypeChar_argument a h.1, isTypeChar_texts rest h.2⟩

end

theorem head?_text {t : PlainType} (h : t.isWellFormed = true) :
    ∃ c, t.text.head? = some c ∧ isBlank c = false := by
  obtain ⟨name, arguments, suffixes⟩ := t
  obtain ⟨⟨nonempty, letters⟩, -⟩ := PlainType.isWellFormed_iff.1 h
  obtain ⟨c, name, rfl⟩ := List.exists_cons_of_ne_nil nonempty
  rw [List.all_cons, Bool.and_eq_true] at letters
  exact ⟨c, rfl, isBlank_of_isQualifiedLetter letters.1⟩

private theorem balanced_listed {texts : List (List Char)} (h : ∀ t ∈ texts, Balanced ',' t) :
    Balanced ',' (listed texts) := by
  rw [listed]
  split
  · exact balanced_nil
  · have blank : Balanced ',' [' '] := balanced_of_plain rfl
    have glue : Sheltered ',' [',', ' '] := (sheltered_separator (by decide)).append blank.sheltered
    exact @balanced_bracketed ',' (by decide) ('<', '>') (by decide) _
      (glue.joinWith fun t member => (h t member).sheltered)

mutual

theorem balanced_text (t : PlainType) (h : t.isWellFormed = true) : Balanced ',' t.text := by
  obtain ⟨name, arguments, suffixes⟩ := t
  obtain ⟨⟨-, letters⟩, inner⟩ := PlainType.isWellFormed_iff.1 h
  have name' : Balanced ',' name := balanced_of_plain (plain_of_class (by decide) letters)
  have arrays : Balanced ',' (suffixes.flatMap ArraySuffix.text) :=
    balanced_of_plain (all_suffixes (by decide) suffixes)
  rw [PlainType.text]
  exact name'.append ((balanced_listed (balanced_texts arguments inner)).append arrays)

theorem balanced_argument (a : PlainArgument) (h : a.isWellFormed = true) :
    Balanced ',' a.text := by
  cases a with
  | type t => exact balanced_text t h
  | bounded word t =>
    rw [bounded_text]
    exact (balanced_of_plain (by cases word <;> decide)).append (balanced_text t h)
  | unbounded => exact balanced_of_plain rfl

theorem balanced_texts (arguments : List PlainArgument) (h : arePlain arguments = true) :
    ∀ t ∈ plainTexts arguments, Balanced ',' t := by
  cases arguments with
  | nil => exact nofun
  | cons a rest =>
    rw [arePlain, Bool.and_eq_true] at h
    rw [plainTexts, List.forall_mem_cons]
    exact ⟨balanced_argument a h.1, balanced_texts rest h.2⟩

end

private theorem phrase_commas {texts : List (List Char)} (nonempty : texts ≠ [])
    (h : ∀ t ∈ texts, Phrase t) : Phrase (joinWith [',', ' '] texts) := by
  induction texts with
  | nil => exact absurd rfl nonempty
  | cons t texts ih =>
    rw [List.forall_mem_cons] at h
    cases texts with
    | nil =>
      rw [joinWith_singleton]
      exact h.1
    | cons u texts =>
      have comma : Phrase (t ++ [',']) := h.1.append (phrase_of_solid (by decide))
      have other : endsAsFinal (t ++ [',']) = false := endsAsFinal_append t (by decide)
      have whole := comma.apart other (ih (List.cons_ne_nil _ _) h.2)
      rw [joinWith_cons_cons]
      simpa using whole

mutual

theorem phrase_text (t : PlainType) (h : t.isWellFormed = true) : Phrase t.text := by
  obtain ⟨name, arguments, suffixes⟩ := t
  obtain ⟨⟨nonempty, letters⟩, inner⟩ := PlainType.isWellFormed_iff.1 h
  have name' := phrase_of_solid (solid_of_letters nonempty letters)
  have listed' : Phrase (name ++ listed (plainTexts arguments)) := by
    cases arguments with
    | nil => rwa [plainTexts, listed_nil, List.append_nil]
    | cons a rest =>
      have texts := phrase_commas (List.cons_ne_nil _ _) (phrase_texts (a :: rest) inner)
      have opens : Phrase ['<'] := phrase_of_solid (by decide)
      have closes : Phrase ['>'] := phrase_of_solid (by decide)
      exact name'.append (opens.append (texts.append closes))
  rw [PlainType.text, ← List.append_assoc]
  by_cases none' : suffixes = []
  · rwa [none', List.flatMap_nil, List.append_nil]
  · refine listed'.append (phrase_of_solid ⟨?_, ?_⟩)
    · obtain ⟨suffix, rest, rfl⟩ := List.exists_cons_of_ne_nil none'
      cases suffix <;> simp [ArraySuffix.text]
    · have visible : "[].".toList.all (fun c => !isBlank c) = true := by decide
      have solid := List.all_eq_true.1 (all_suffixes visible suffixes)
      exact fun c member => (Bool.not_eq_true' _).mp (solid c member)

theorem phrase_argument (a : PlainArgument) (h : a.isWellFormed = true) : Phrase a.text := by
  have wildcard : Phrase ['?'] := phrase_of_solid (by decide)
  cases a with
  | type t => exact phrase_text t h
  | bounded word t =>
    have bound : Phrase word.text ∧ endsAsFinal word.text = false := by
      cases word <;> exact ⟨phrase_of_solid (by decide), by decide⟩
    exact wildcard.apart (by decide) (bound.1.apart bound.2 (phrase_text t h))
  | unbounded => exact wildcard

theorem phrase_texts (arguments : List PlainArgument) (h : arePlain arguments = true) :
    ∀ t ∈ plainTexts arguments, Phrase t := by
  cases arguments with
  | nil => exact nofun
  | cons a rest =>
    rw [arePlain, Bool.and_eq_true] at h
    rw [plainTexts, List.forall_mem_cons]
    exact ⟨phrase_argument a h.1, phrase_texts rest h.2⟩

end

/-- A type that ends as `final` does is a name. -/
theorem solid_of_endsAsFinal {t : PlainType} (h : t.isWellFormed = true)
    (ends : endsAsFinal t.text = true) : Solid t.text := by
  obtain ⟨name, arguments, suffixes⟩ := t
  obtain ⟨⟨nonempty, letters⟩, -⟩ := PlainType.isWellFormed_iff.1 h
  rw [PlainType.text] at ends ⊢
  rcases List.eq_nil_or_concat suffixes with rfl | ⟨front, suffix, rfl⟩
  · cases arguments with
    | nil =>
      rw [plainTexts, listed_nil, List.flatMap_nil, List.append_nil, List.append_nil]
      exact solid_of_letters nonempty letters
    | cons a rest =>
      rw [plainTexts, listed_cons, List.flatMap_nil, List.append_nil, ← List.cons_append,
        ← List.append_assoc, endsAsFinal_append _ (List.cons_ne_nil _ _)] at ends
      cases ends
  · rw [List.concat_eq_append, List.flatMap_append, List.flatMap_singleton, ← List.append_assoc,
      ← List.append_assoc, endsAsFinal_append _ (by cases suffix <;> decide)] at ends
    cases suffix <;> cases ends

/-- A type other than `final` is made up of its words, and `final` is none of them. -/
theorem words_text {t : PlainType} (h : t.isWellFormed = true) (type : t.text ≠ "final".toList) :
    joinWith [' '] (words t.text) = t.text ∧ words t.text ≠ [] ∧ "final".toList ∉ words t.text := by
  obtain ⟨joined, nonempty, last⟩ := (phrase_text t h).words
  refine ⟨joined, nonempty, fun member => type ?_⟩
  rw [words_of_solid_word (solid_of_endsAsFinal h (last member))] at member
  exact (List.mem_singleton.1 member).symm

end ApiCollection.Java
