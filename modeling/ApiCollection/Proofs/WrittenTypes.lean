import ApiCollection.Java.TypeExpr
import ApiCollection.Proofs.TopLevelPieces

/-!
# Written types

A type can be written in many ways: with a package, with blanks between its parts, with wildcards
for arguments and with dots for an array suffix. All of them are read as the same tree.
-/

namespace ApiCollection.Java

open Text

/-- Characters that may stand in an identifier: all but blanks and the signs of types. -/
def isIdentifierChar (c : Char) : Bool :=
  !isBlank c && !(['<', '>', ',', '.', '[', ']', '?', '"', '(', ')', '\x7b', '\x7d'].contains c)

def isQualifiedChar (c : Char) : Bool := isBlank c || c == '.' || isIdentifierChar c

/-- Whether a text can be the name of a type. -/
def isIdentifier (cs : List Char) : Bool := !cs.isEmpty && cs.all isIdentifierChar

structure SpacedName where
  front : List Char
  letters : List Char
  behind : List Char

namespace SpacedName

def text (n : SpacedName) : List Char := n.front ++ (n.letters ++ n.behind)

def isWellFormed (n : SpacedName) : Bool :=
  n.front.all isBlank && isIdentifier n.letters && n.behind.all isBlank

end SpacedName

inductive ArraySuffix where
  | brackets
  | dots
  deriving DecidableEq

def ArraySuffix.text : ArraySuffix → List Char
  | brackets => ['[', ']']
  | dots => ['.', '.', '.']

inductive BoundWord where
  | upper
  | lower
  deriving DecidableEq

def BoundWord.text : BoundWord → List Char
  | upper => "extends".toList
  | lower => "super".toList

mutual

/-- A type as it is written: the parts of the package, the name, the arguments, the array suffixes
with the blanks before them, and the blanks behind all. -/
inductive TypeText where
  | mk (package : List SpacedName) (name : SpacedName) (arguments : List ArgumentText)
    (suffixes : List (List Char × ArraySuffix)) (behind : List Char)

/-- An argument of a type, which may be a wildcard with or without a bound. -/
inductive ArgumentText where
  | type (type : TypeText)
  | bounded (front gap : List Char) (word : BoundWord) (apart : List Char) (type : TypeText)
  | unbounded (front behind : List Char)

end

def packageText (package : List SpacedName) : List Char := package.flatMap fun n => n.text ++ ['.']

def suffixesText (suffixes : List (List Char × ArraySuffix)) : List Char :=
  suffixes.flatMap fun (space, suffix) => space ++ suffix.text

def bracketed (texts : List (List Char)) : List Char :=
  if texts.isEmpty then [] else '<' :: (joinWith [','] texts ++ ['>'])

mutual

def TypeText.text : TypeText → List Char
  | ⟨package, name, arguments, suffixes, behind⟩ => packageText package ++ (name.text ++
    (bracketed (argumentTexts arguments) ++ (suffixesText suffixes ++ behind)))

def ArgumentText.text : ArgumentText → List Char
  | .type t => t.text
  | .bounded front gap word apart t => front ++ '?' :: (gap ++ (word.text ++ (apart ++ t.text)))
  | .unbounded front behind => front ++ '?' :: behind

def argumentTexts : List ArgumentText → List (List Char)
  | [] => []
  | a :: rest => a.text :: argumentTexts rest

end

mutual

def TypeText.tree : TypeText → TypeExpr
  | ⟨_, name, arguments, suffixes, _⟩ =>
    ⟨String.ofList name.letters, argumentTrees arguments, suffixes.length⟩

def ArgumentText.tree : ArgumentText → TypeExpr
  | .type t => t.tree
  | .bounded _ _ _ _ t => t.tree
  | .unbounded _ _ => .object

def argumentTrees : List ArgumentText → List TypeExpr
  | [] => []
  | a :: rest => a.tree :: argumentTrees rest

end

mutual

/-- Whether names are identifiers, blanks are blank, and a bound is set apart from its word. -/
def TypeText.isWellFormed : TypeText → Bool
  | ⟨package, name, arguments, suffixes, behind⟩ =>
    package.all SpacedName.isWellFormed && name.isWellFormed && areWellFormed arguments &&
      suffixes.all (fun (space, _) => space.all isBlank) && behind.all isBlank

def ArgumentText.isWellFormed : ArgumentText → Bool
  | .type t => t.isWellFormed
  | .bounded front gap _ apart t =>
    front.all isBlank && gap.all isBlank && apart.all isBlank && !apart.isEmpty && t.isWellFormed
  | .unbounded front behind => front.all isBlank && behind.all isBlank

def areWellFormed : List ArgumentText → Bool
  | [] => true
  | a :: rest => a.isWellFormed && areWellFormed rest

end

theorem isIdentifier_iff {cs : List Char} :
    isIdentifier cs = true ↔ cs ≠ [] ∧ cs.all isIdentifierChar = true := by
  rw [isIdentifier, Bool.and_eq_true, Bool.not_eq_true', List.isEmpty_eq_false_iff]

theorem SpacedName.isWellFormed_iff {n : SpacedName} : n.isWellFormed = true ↔
    n.front.all isBlank = true ∧ isIdentifier n.letters = true ∧ n.behind.all isBlank = true := by
  rw [isWellFormed, Bool.and_eq_true, Bool.and_eq_true, and_assoc]

/-- The signs of types stand neither in identifiers nor in blanks. -/
theorem not_mem_identifier {cs : List Char} (h : isIdentifier cs = true) {c : Char}
    (sign : isIdentifierChar c = false) : c ∉ cs := not_mem_of_all (isIdentifier_iff.1 h).2 sign

theorem isBlank_of_isIdentifierChar {c : Char} (h : isIdentifierChar c = true) :
    isBlank c = false := by
  rw [isIdentifierChar, Bool.and_eq_true, Bool.not_eq_true'] at h
  exact h.1

theorem exists_getLast? {cs : List Char} (h : isIdentifier cs = true) :
    ∃ c, cs.getLast? = some c ∧ isIdentifierChar c = true := by
  rw [isIdentifier_iff] at h
  obtain ⟨front, c, rfl⟩ := (List.eq_nil_or_concat cs).resolve_left h.1
  rw [List.concat_eq_append] at h ⊢
  exact ⟨c, List.getLast?_concat, List.all_eq_true.1 h.2 c (by simp)⟩

theorem exists_head? {cs : List Char} (h : isIdentifier cs = true) :
    ∃ c, cs.head? = some c ∧ isIdentifierChar c = true := by
  rw [isIdentifier_iff] at h
  obtain ⟨c, rest, rfl⟩ := List.exists_cons_of_ne_nil h.1
  exact ⟨c, rfl, List.all_eq_true.1 h.2 c List.mem_cons_self⟩

theorem isQualifiedChar_text {name : SpacedName} (h : name.isWellFormed = true) :
    name.text.all isQualifiedChar = true := by
  rw [SpacedName.isWellFormed_iff, isIdentifier_iff, List.all_eq_true, List.all_eq_true,
    List.all_eq_true] at h
  obtain ⟨front, ⟨-, letters⟩, behind⟩ := h
  rw [List.all_eq_true, SpacedName.text, List.forall_mem_append, List.forall_mem_append]
  refine ⟨fun c member => ?_, fun c member => ?_, fun c member => ?_⟩
  · simp [isQualifiedChar, front c member]
  · simp [isQualifiedChar, letters c member]
  · simp [isQualifiedChar, behind c member]

theorem isQualifiedChar_packageText {package : List SpacedName}
    (h : package.all SpacedName.isWellFormed = true) :
    (packageText package).all isQualifiedChar = true := by
  rw [packageText, List.all_flatMap, List.all_eq_true]
  intro part member
  rw [List.all_append, isQualifiedChar_text (List.all_eq_true.1 h part member)]
  rfl

namespace TypeExpr

/-- A type is read from its text without blanks around it and without a wildcard. -/
theorem ofChars_eq (cs : List Char) : ofChars cs =
    let body := splitSuffixes (dropWildcard (trim cs))
    ⟨baseName (splitArguments body.2).1, ((splitArguments body.2).2.elim [] fun inner =>
      ((splitTopLevel ',' inner).filter fun part => !allBlank part).map ofChars), body.1⟩ := by
  rw [ofChars]
  dsimp only
  split
  · rename_i none'
    rw [none', Option.elim_none]
  · rename_i inner some'
    rw [some', Option.elim_some]
    simp

/-- Whatever is left of two texts in the same way is read in the same way. -/
theorem ofChars_congr {xs ys : List Char} (h : dropWildcard (trim xs) = dropWildcard (trim ys)) :
    ofChars xs = ofChars ys := by
  rw [ofChars_eq, ofChars_eq, h]

private theorem dropWildcard_of_head? {cs : List Char} (h : cs.head? ≠ some '?') :
    dropWildcard cs = cs := by
  unfold dropWildcard
  split
  · exact absurd rfl h
  · rfl

theorem splitSuffixes_of_getLast? {cs : List Char} (bracket : cs.getLast? ≠ some ']')
    (dot : cs.getLast? ≠ some '.') : splitSuffixes cs = (0, cs) := by
  rw [← List.head?_reverse] at bracket dot
  have none' : dropSuffixes cs.reverse = (0, cs.reverse) := by
    rw [dropSuffixes.eq_def]
    split
    · rename_i eq
      rw [eq] at bracket
      exact absurd rfl bracket
    · rename_i eq
      rw [eq] at dot
      exact absurd rfl dot
    · rfl
  rw [splitSuffixes, none']
  simp

/-- A suffix and the blanks before it are read off the end. -/
theorem splitSuffixes_append (cs : List Char) (suffix : ArraySuffix) :
    splitSuffixes (cs ++ suffix.text) =
      ((splitSuffixes (trimEnd cs)).1 + 1, (splitSuffixes (trimEnd cs)).2) := by
  have reversed : (trimEnd cs).reverse = trimStart cs.reverse := List.reverse_reverse _
  rw [splitSuffixes, splitSuffixes, reversed, List.reverse_append]
  cases suffix with
  | brackets =>
    have text : ArraySuffix.brackets.text.reverse ++ cs.reverse = ']' :: '[' :: cs.reverse := rfl
    rw [text, dropSuffixes]
  | dots =>
    have text : ArraySuffix.dots.text.reverse ++ cs.reverse = '.' :: '.' :: '.' :: cs.reverse := rfl
    rw [text, dropSuffixes]

/-- All suffixes are read off the end of a type. -/
theorem splitSuffixes_text {core : List Char} (bracket : (trim core).getLast? ≠ some ']')
    (dot : (trim core).getLast? ≠ some '.') {suffixes : List (List Char × ArraySuffix)}
    (blanks : ∀ s ∈ suffixes, s.1.all isBlank = true) {behind : List Char}
    (blank : behind.all isBlank = true) :
    splitSuffixes (trim (core ++ (suffixesText suffixes ++ behind))) =
      (suffixes.length, trim core) := by
  induction suffixes using List.reverseRecOn generalizing behind with
  | nil =>
    change splitSuffixes (trim (core ++ behind)) = _
    rw [trim_append_blanks blank, splitSuffixes_of_getLast? bracket dot]
    rfl
  | append_singleton suffixes last ih =>
    obtain ⟨space, suffix⟩ := last
    rw [List.forall_mem_append, List.forall_mem_singleton] at blanks
    obtain ⟨c, d, head, ending, firstBlank, lastBlank⟩ : ∃ c d, suffix.text.head? = some c ∧
        suffix.text.getLast? = some d ∧ isBlank c = false ∧ isBlank d = false := by
      cases suffix <;> exact ⟨_, _, rfl, rfl, by decide, by decide⟩
    have text : core ++ (suffixesText (suffixes ++ [(space, suffix)]) ++ behind) =
        ((core ++ (suffixesText suffixes ++ space)) ++ suffix.text) ++ behind := by
      simp [suffixesText]
    have trimmed : trim ((core ++ (suffixesText suffixes ++ space)) ++ suffix.text) =
        trimStart (core ++ (suffixesText suffixes ++ space)) ++ suffix.text := by
      rw [trim, trimStart_append head firstBlank]
      exact trimEnd_of_getLast? (by rw [List.getLast?_append, ending]; rfl) lastBlank
    rw [text, trim_append_blanks blank, trimmed, splitSuffixes_append, ← trim, ih blanks.1 blanks.2,
      List.length_append]
    rfl

theorem trim_beside {letters : List Char} (h : isIdentifier letters = true)
    (front behind : List Char) :
    trim (front ++ (letters ++ behind)) = trimStart front ++ (letters ++ trimEnd behind) := by
  obtain ⟨c, head, first⟩ := exists_head? h
  obtain ⟨d, ending, last⟩ := exists_getLast? h
  exact trim_around head (isBlank_of_isIdentifierChar first) ending
    (isBlank_of_isIdentifierChar last) front behind

private theorem trim_identifier {letters : List Char} (h : isIdentifier letters = true)
    {front : List Char}
    (blank : front.all isBlank = true) : trim (front ++ letters) = letters := by
  have around := trim_beside h front []
  rwa [trimStart_of_all blank, @trimEnd_of_all [] rfl, List.append_nil] at around

theorem trim_name (package : List SpacedName) {name : SpacedName} (h : name.isWellFormed = true)
    (rest : List Char) : trim (packageText package ++ (name.text ++ rest)) =
      trimStart (packageText package ++ name.front) ++
        (name.letters ++ trimEnd (name.behind ++ rest)) := by
  rw [SpacedName.text, List.append_assoc, List.append_assoc, ← List.append_assoc,
    trim_beside (SpacedName.isWellFormed_iff.1 h).2.1]

/-- The base name is behind the package. -/
theorem baseName_text (package : List SpacedName) {name : SpacedName}
    (h : name.isWellFormed = true) :
    baseName (packageText package ++ name.text) = String.ofList name.letters := by
  have around := trim_name package h []
  obtain ⟨front, identifier, behind⟩ := SpacedName.isWellFormed_iff.1 h
  have nonempty : name.letters.isEmpty = false :=
    List.isEmpty_eq_false_iff.2 (isIdentifier_iff.1 identifier).1
  have dots : '.' ∉ name.letters := not_mem_identifier identifier rfl
  rw [List.append_nil, List.append_nil, trimEnd_of_all behind, List.append_nil] at around
  have piece : trim (lastPiece '.' (trimStart (packageText package ++ name.front) ++ name.letters)) =
      name.letters := by
    rcases List.eq_nil_or_concat package with rfl | ⟨qualifier, part, rfl⟩
    · rw [packageText, List.flatMap_nil, List.nil_append, trimStart_of_all front, List.nil_append,
        lastPiece_of_not_mem dots]
      exact @trim_identifier _ identifier [] rfl
    · have dotted : packageText (qualifier.concat part) ++ name.front =
          (packageText qualifier ++ part.text) ++ '.' :: name.front := by
        simp [packageText]
      rw [dotted, trimStart_append rfl (by decide), List.append_assoc, List.cons_append,
        lastPiece_append, lastPiece_of_not_mem, trim_identifier identifier front]
      rw [List.mem_append, not_or]
      exact ⟨not_mem_of_all front (by decide), dots⟩
  rw [baseName, around, piece, nonempty]
  rfl

/-- Whether a text closes its angle brackets and has no other brackets and no quotes. -/
structure Angled (cs : List Char) : Prop where
  closes : ∀ depth rest, closesAngles depth (cs ++ rest) = closesAngles depth rest
  plain : ∀ c ∈ cs, c = '<' ∨ c = '>' ∨ c = ',' ∨ isPlain ',' c = true

theorem Angled.append {xs ys : List Char} (h : Angled xs) (h' : Angled ys) : Angled (xs ++ ys) where
  closes depth rest := by rw [List.append_assoc, h.closes, h'.closes]
  plain := by
    rw [List.forall_mem_append]
    exact ⟨h.plain, h'.plain⟩

private theorem Angled.joinWith {texts : List (List Char)} (h : ∀ t ∈ texts, Angled t) :
    Angled (joinWith [','] texts) :=
  joinWith_closed ⟨fun _ _ => rfl, by simp⟩ (fun _ _ => Angled.append) ⟨fun _ _ => rfl, by simp⟩ h

/-- Whether a text can be an argument: a piece of its own that closes its angle brackets. -/
structure Whole (cs : List Char) : Prop where
  flat : Flat ',' cs
  angled : Angled cs

theorem Whole.append {xs ys : List Char} (h : Whole xs) (h' : Whole ys) : Whole (xs ++ ys) :=
  ⟨h.flat.append h'.flat, h.angled.append h'.angled⟩

theorem whole_of_plain {cs : List Char} (h : cs.all (isPlain ',') = true) : Whole cs := by
  refine ⟨flat_of_plain h, fun depth rest => ?_, fun c member => ?_⟩
  · induction cs with
    | nil => rfl
    | cons c cs ih =>
      rw [List.all_cons, Bool.and_eq_true] at h
      have open' : (c == '<') = false := by
        rw [beq_eq_false_iff_ne]
        rintro rfl
        exact absurd h.1 (by decide)
      have close' : (c == '>') = false := by
        rw [beq_eq_false_iff_ne]
        rintro rfl
        exact absurd h.1 (by decide)
      rw [List.cons_append, closesAngles, open', close']
      exact ih h.2
  · exact .inr (.inr (.inr (List.all_eq_true.1 h c member)))

private theorem whole_bracketed {texts : List (List Char)} (h : ∀ t ∈ texts, Whole t) :
    Whole (bracketed texts) := by
  rw [bracketed]
  split
  · exact whole_of_plain rfl
  · have inside := Angled.joinWith fun t member => (h t member).angled
    have closes := inside.closes 0 []
    rw [List.append_nil] at closes
    refine ⟨flat_angles (by decide) inside.plain closes, fun depth rest => ?_, ?_⟩
    · rw [List.cons_append, closesAngles, if_pos (beq_self_eq_true '<'), List.append_assoc,
        inside.closes]
      rfl
    · simpa [or_imp, forall_and] using inside.plain

private theorem plain_suffixesText {suffixes : List (List Char × ArraySuffix)}
    (h : suffixes.all (fun (space, _) => space.all isBlank) = true) :
    (suffixesText suffixes).all (isPlain ',') = true := by
  rw [suffixesText, List.all_flatMap, List.all_eq_true]
  rintro ⟨space, suffix⟩ member
  have blank : space.all isBlank = true := List.all_eq_true.1 h _ member
  rw [List.all_append, plain_of_class (by decide) blank]
  cases suffix <;> decide

mutual

theorem whole_text (t : TypeText) (h : t.isWellFormed = true) : Whole t.text := by
  obtain ⟨package, name, arguments, suffixes, behind⟩ := t
  simp only [TypeText.isWellFormed, Bool.and_eq_true] at h
  obtain ⟨⟨⟨⟨parts, last⟩, inner⟩, blanks⟩, blank⟩ := h
  have tail : ((suffixesText suffixes) ++ behind).all (isPlain ',') = true := by
    rw [List.all_append, plain_suffixesText blanks, plain_of_class (by decide) blank]
    rfl
  rw [TypeText.text]
  have qualifier : (packageText package).all (isPlain ',') = true :=
    plain_of_class (by decide) (isQualifiedChar_packageText parts)
  have letters : name.text.all (isPlain ',') = true :=
    plain_of_class (by decide) (isQualifiedChar_text last)
  exact (whole_of_plain qualifier).append ((whole_of_plain letters).append
    ((whole_bracketed (whole_arguments arguments inner)).append (whole_of_plain tail)))

theorem whole_argument (a : ArgumentText) (h : a.isWellFormed = true) : Whole a.text := by
  cases a with
  | type t => exact whole_text t h
  | bounded front gap word apart t =>
    simp only [ArgumentText.isWellFormed, Bool.and_eq_true] at h
    obtain ⟨⟨⟨⟨first, second⟩, third⟩, -⟩, bound⟩ := h
    have wildcard : (front ++ '?' :: (gap ++ (word.text ++ apart))).all (isPlain ',') = true := by
      have letters : word.text.all (isPlain ',') = true := by cases word <;> decide
      rw [List.all_append, List.all_cons, List.all_append, List.all_append, letters,
        plain_of_class (by decide) first, plain_of_class (by decide) second,
        plain_of_class (by decide) third]
      rfl
    have whole := (whole_of_plain wildcard).append (whole_text t bound)
    simpa [ArgumentText.text] using whole
  | unbounded front behind =>
    simp only [ArgumentText.isWellFormed, Bool.and_eq_true] at h
    apply whole_of_plain
    rw [ArgumentText.text, List.all_append, List.all_cons, plain_of_class (by decide) h.1,
      plain_of_class (by decide) h.2]
    rfl

theorem whole_arguments (arguments : List ArgumentText) (h : areWellFormed arguments = true) :
    ∀ t ∈ argumentTexts arguments, Whole t := by
  cases arguments with
  | nil => simp [argumentTexts]
  | cons a rest =>
    rw [areWellFormed, Bool.and_eq_true] at h
    rw [argumentTexts, List.forall_mem_cons]
    exact ⟨whole_argument a h.1, whole_arguments rest h.2⟩

end

private theorem not_mem_head {package : List SpacedName}
    (parts : package.all SpacedName.isWellFormed = true)
    {name : SpacedName} (h : name.isWellFormed = true) : '<' ∉ packageText package ++ name.text := by
  rw [List.mem_append, not_or]
  exact ⟨not_mem_of_all (isQualifiedChar_packageText parts) (by decide),
    not_mem_of_all (isQualifiedChar_text h) (by decide)⟩

private theorem getLast?_trim_head (package : List SpacedName) {name : SpacedName}
    (h : name.isWellFormed = true) :
    (trim (packageText package ++ name.text)).getLast?.any isIdentifierChar = true := by
  have around := trim_name package h []
  rw [SpacedName.isWellFormed_iff] at h
  obtain ⟨d, ending, last⟩ := exists_getLast? h.2.1
  rw [List.append_nil, List.append_nil, trimEnd_of_all h.2.2, List.append_nil] at around
  rw [around, List.getLast?_append, ending]
  exact last

/-- A text without arguments is not cut. -/
theorem splitArguments_bare {head : List Char} (h : '<' ∉ head) :
    splitArguments (trim head) = (trim head, none) := by
  rw [splitArguments, cutAtChar?_of_not_mem]
  exact fun member => h ((isInfix_trim _).subset member)

/-- A text is cut at the bracket that opens its arguments. -/
theorem splitArguments_opened {head inside : List Char} (h : '<' ∉ head) :
    trim (head ++ '<' :: (inside ++ ['>'])) = trimStart head ++ '<' :: (inside ++ ['>']) ∧
      splitArguments (trim (head ++ '<' :: (inside ++ ['>']))) = (trimStart head, some inside) := by
  have closing : ('<' :: (inside ++ ['>'])).getLast? = some '>' := by
    rw [← List.cons_append, List.getLast?_concat]
  have core : trim (head ++ '<' :: (inside ++ ['>'])) =
      trimStart head ++ '<' :: (inside ++ ['>']) := by
    rw [trim, trimStart_append rfl (by decide)]
    exact trimEnd_of_getLast? (by rw [List.getLast?_append, closing]; rfl) (by decide)
  refine ⟨core, ?_⟩
  rw [core, splitArguments, cutAtChar?_append fun member => h ((suffix_trimStart _).subset member)]
  simp [cutAtChar?]

/-- The name and the arguments of what stands in front of the array suffixes. -/
theorem splitArguments_text (package : List SpacedName)
    (parts : package.all SpacedName.isWellFormed = true) {name : SpacedName}
    (h : name.isWellFormed = true) (texts : List (List Char)) :
    let core := trim (packageText package ++ (name.text ++ bracketed texts))
    core.getLast?.any (fun c => c == '>' || isIdentifierChar c) = true ∧
      baseName (splitArguments core).1 = String.ofList name.letters ∧
      (splitArguments core).2 = if texts.isEmpty then none else some (joinWith [','] texts) := by
  have absent := not_mem_head parts h
  have named := baseName_text package h
  cases texts with
  | nil =>
    rw [show bracketed [] = [] from rfl, List.append_nil]
    dsimp only
    rw [splitArguments_bare absent]
    refine ⟨?_, ?_, rfl⟩
    · obtain ⟨d, last, letter⟩ := (Option.any_eq_true _ _).1 (getLast?_trim_head package h)
      exact (Option.any_eq_true _ _).2 ⟨d, last, Bool.or_eq_true_iff.2 (.inr letter)⟩
    · rwa [baseName, trim_trim, ← baseName]
  | cons t texts =>
    rw [← List.append_assoc, bracketed, List.isEmpty_cons, if_neg Bool.false_ne_true]
    obtain ⟨core, cut⟩ := @splitArguments_opened _ (joinWith [','] (t :: texts)) absent
    dsimp only
    rw [cut, core]
    refine ⟨?_, ?_, rfl⟩
    · rw [← List.cons_append, ← List.append_assoc, List.getLast?_concat]
      rfl
    · rwa [baseName, trim_trimStart, ← baseName]

/-- A type that begins with a name is no wildcard. -/
theorem dropWildcard_text {t : TypeText} (h : t.isWellFormed = true) :
    dropWildcard (trim t.text) = trim t.text := by
  obtain ⟨package, name, arguments, suffixes, behind⟩ := t
  simp only [TypeText.isWellFormed, Bool.and_eq_true] at h
  obtain ⟨⟨⟨⟨parts, last⟩, -⟩, -⟩, -⟩ := h
  rw [TypeText.text, trim_name package last, ← List.append_assoc]
  have letters := (SpacedName.isWellFormed_iff.1 last).2.1
  have none' : '?' ∉ trimStart (packageText package ++ name.front) ++ name.letters := by
    have blanks : '?' ∉ name.front :=
      not_mem_of_all (SpacedName.isWellFormed_iff.1 last).1 (by decide)
    rw [List.mem_append, not_or]
    refine ⟨fun member => ?_, not_mem_identifier letters rfl⟩
    obtain here | here := List.mem_append.1 ((suffix_trimStart _).subset member)
    · exact not_mem_of_all (isQualifiedChar_packageText parts) (by decide) here
    · exact blanks here
  apply dropWildcard_of_head?
  rw [List.head?_append_of_ne_nil _ fun empty =>
    (isIdentifier_iff.1 letters).1 (List.append_eq_nil_iff.1 empty).2]
  exact fun head => none' (List.mem_of_head? head)

private theorem ofChars_bounded {front gap apart : List Char} (first : front.all isBlank = true)
    (second : gap.all isBlank = true) (third : apart.all isBlank = true) (word : BoundWord)
    {t : TypeText} (h : t.isWellFormed = true) :
    ofChars (front ++ '?' :: (gap ++ (word.text ++ (apart ++ t.text)))) = ofChars t.text := by
  apply ofChars_congr
  have wildcard (rest : List Char) : trim (front ++ '?' :: rest) = '?' :: trimEnd rest := by
    have around := @trim_around ['?'] _ _ rfl (by decide) rfl (by decide) front rest
    rwa [trimStart_of_all first] at around
  have bound : trim (trimEnd (gap ++ (word.text ++ (apart ++ t.text)))) =
      word.text ++ trimEnd (apart ++ t.text) := by
    rw [trim_trimEnd, trim_beside (by cases word <;> decide), trimStart_of_all second]
    rfl
  have behind : trim (trimEnd (apart ++ t.text)) = trim t.text := by
    rw [trim_trimEnd, trim_blanks_append third]
  rw [wildcard, dropWildcard_text h, dropWildcard, bound]
  cases word with
  | upper => exact behind
  | lower => exact behind

private theorem ofChars_unbounded {front behind : List Char} (first : front.all isBlank = true)
    (last : behind.all isBlank = true) : ofChars (front ++ '?' :: behind) = object := by
  have trimmed : trim (front ++ '?' :: behind) = ['?'] :=
    @trim_between _ ['?'] _ _ _ first rfl (by decide) rfl (by decide) last
  have none' : dropWildcard ['?'] = [] := by decide
  have suffixes : splitSuffixes [] = (0, []) := splitSuffixes_of_getLast? (by simp) (by simp)
  rw [ofChars_eq, trimmed, none', suffixes]
  rfl

private theorem allBlank_argument {a : ArgumentText} (h : a.isWellFormed = true) :
    allBlank a.text = false := by
  rw [allBlank, List.all_eq_false]
  cases a with
  | type t =>
    obtain ⟨package, name, arguments, suffixes, behind⟩ := t
    simp only [ArgumentText.isWellFormed, TypeText.isWellFormed, Bool.and_eq_true] at h
    obtain ⟨c, head, first⟩ := exists_head? (SpacedName.isWellFormed_iff.1 h.1.1.1.2).2.1
    refine ⟨c, ?_, by simp [isBlank_of_isIdentifierChar first]⟩
    simp [ArgumentText.text, TypeText.text, SpacedName.text, List.mem_of_head? head]
  | bounded => exact ⟨'?', by simp [ArgumentText.text], by decide⟩
  | unbounded => exact ⟨'?', by simp [ArgumentText.text], by decide⟩

private theorem allBlank_arguments {arguments : List ArgumentText}
    (h : areWellFormed arguments = true) :
    ∀ t ∈ argumentTexts arguments, allBlank t = false := by
  induction arguments with
  | nil => simp [argumentTexts]
  | cons a rest ih =>
    rw [areWellFormed, Bool.and_eq_true] at h
    rw [argumentTexts, List.forall_mem_cons]
    exact ⟨allBlank_argument h.1, ih h.2⟩

mutual

theorem ofChars_text (t : TypeText) (h : t.isWellFormed = true) : ofChars t.text = t.tree := by
  obtain ⟨package, name, arguments, suffixes, behind⟩ := t
  have first := dropWildcard_text h
  simp only [TypeText.isWellFormed, Bool.and_eq_true] at h
  obtain ⟨⟨⟨⟨parts, last⟩, inner⟩, blanks⟩, blank⟩ := h
  obtain ⟨ending, base, inside⟩ := splitArguments_text package parts last (argumentTexts arguments)
  have text : (TypeText.mk package name arguments suffixes behind).text =
      (packageText package ++ (name.text ++ bracketed (argumentTexts arguments))) ++
        (suffixesText suffixes ++ behind) := by
    simp [TypeText.text]
  have body : splitSuffixes (trim (TypeText.mk package name arguments suffixes behind).text) =
      (suffixes.length,
        trim (packageText package ++ (name.text ++ bracketed (argumentTexts arguments)))) := by
    rw [text]
    refine splitSuffixes_text ?_ ?_ (List.all_eq_true.1 blanks) blank
    all_goals
      intro eq
      rw [eq] at ending
      exact absurd ending (by decide)
  have pieces : ((splitTopLevel ',' (joinWith [','] (argumentTexts arguments))).filter fun part =>
      !allBlank part) = argumentTexts arguments := by
    have solid := allBlank_arguments inner
    rw [splitTopLevel_joinWith rfl (fun t member => (whole_arguments arguments inner t member).flat)
      solid, List.filter_eq_self]
    simpa using solid
  have trees := map_ofChars arguments inner
  rw [ofChars_eq, first, body]
  dsimp only
  rw [base, inside, TypeText.tree]
  cases arguments with
  | nil => rfl
  | cons a rest =>
    rw [argumentTexts, List.isEmpty_cons, if_neg Bool.false_ne_true, Option.elim_some,
      ← argumentTexts, pieces, trees]

theorem ofChars_argument (a : ArgumentText) (h : a.isWellFormed = true) :
    ofChars a.text = a.tree := by
  cases a with
  | type t => exact ofChars_text t h
  | bounded front gap word apart t =>
    simp only [ArgumentText.isWellFormed, Bool.and_eq_true] at h
    obtain ⟨⟨⟨⟨first, second⟩, third⟩, -⟩, bound⟩ := h
    rw [ArgumentText.text, ofChars_bounded first second third word bound, ofChars_text t bound]
    rfl
  | unbounded front behind =>
    simp only [ArgumentText.isWellFormed, Bool.and_eq_true] at h
    exact ofChars_unbounded h.1 h.2

theorem map_ofChars (arguments : List ArgumentText) (h : areWellFormed arguments = true) :
    (argumentTexts arguments).map ofChars = argumentTrees arguments := by
  cases arguments with
  | nil => rfl
  | cons a rest =>
    rw [areWellFormed, Bool.and_eq_true] at h
    rw [argumentTexts, List.map_cons, ofChars_argument a h.1, map_ofChars rest h.2]
    rfl

end

mutual

def isNamed : TypeExpr → Bool
  | ⟨base, args, _⟩ => isIdentifier base.toList && areNamed args

def areNamed : List TypeExpr → Bool
  | [] => true
  | a :: rest => a.isNamed && areNamed rest

end

mutual

def written : TypeExpr → TypeText
  | ⟨base, args, depth⟩ =>
    ⟨[], ⟨[], base.toList, []⟩, writtenArguments args, List.replicate depth ([], .brackets), []⟩

def writtenArguments : List TypeExpr → List ArgumentText
  | [] => []
  | a :: rest => .type a.written :: writtenArguments rest

end

mutual

theorem tree_written (e : TypeExpr) (h : e.isNamed = true) :
    e.written.isWellFormed = true ∧ e.written.tree = e := by
  obtain ⟨base, args, depth⟩ := e
  rw [isNamed, Bool.and_eq_true] at h
  obtain ⟨inner, trees⟩ := argumentTrees_written args h.2
  constructor
  · simp [written, TypeText.isWellFormed, SpacedName.isWellFormed, h.1, inner]
  · simp [written, TypeText.tree, trees]

theorem argumentTrees_written (args : List TypeExpr) (h : areNamed args = true) :
    areWellFormed (writtenArguments args) = true ∧ argumentTrees (writtenArguments args) = args := by
  cases args with
  | nil => exact ⟨rfl, rfl⟩
  | cons a rest =>
    rw [areNamed, Bool.and_eq_true] at h
    obtain ⟨first, tree⟩ := tree_written a h.1
    obtain ⟨later, trees⟩ := argumentTrees_written rest h.2
    constructor
    · rw [writtenArguments, areWellFormed, ArgumentText.isWellFormed, first, later]
      rfl
    · rw [writtenArguments, argumentTrees, ArgumentText.tree, tree, trees]

end

/-- Every tree over identifiers can be written, and however it is written, it is read back. -/
theorem parse_text {e : TypeExpr} (named : e.isNamed = true) :
    (∃ t : TypeText, t.isWellFormed = true ∧ t.tree = e) ∧
      ∀ t : TypeText, t.isWellFormed = true → t.tree = e → parse (String.ofList t.text) = e := by
  constructor
  · exact ⟨e.written, tree_written e named⟩
  · rintro t wf rfl
    rw [parse, String.toList_ofList, ofChars_text t wf]

def mapText : TypeText :=
  ⟨[⟨[], "java".toList, []⟩, ⟨[], "util".toList, []⟩], ⟨[], "Map".toList, [' ']⟩,
    [.bounded [' '] [] .lower [' '] ⟨[], ⟨[], "List".toList, []⟩, [.unbounded [] []], [], []⟩,
      .bounded [' '] [' '] .upper ['\t'] ⟨[⟨[], "api".toList, []⟩], ⟨[], "User".toList, []⟩, [],
        [([' '], .brackets)], [' ']⟩],
    [([' '], .brackets), ([], .dots)], []⟩

theorem parse_mapText :
    String.ofList mapText.text =
        "java.util.Map < ?super List<?>, ? extends\tapi.User [] > []..." ∧
      parse "java.util.Map < ?super List<?>, ? extends\tapi.User [] > []..." =
        ⟨"Map", [⟨"List", [object], 0⟩, ⟨"User", [], 1⟩], 2⟩ :=
  ⟨by decide, (parse_text (e := ⟨"Map", [⟨"List", [object], 0⟩, ⟨"User", [], 1⟩], 2⟩)
    (by decide)).2 mapText (by decide) rfl⟩

end TypeExpr

end ApiCollection.Java
