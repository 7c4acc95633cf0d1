import ApiCollection.Java.Parameter
import ApiCollection.Proofs.CollectedDirectives
import ApiCollection.Proofs.ParameterTypes

/-!
# Written parameters

A parameter is written as its directives, the modifier `final` if it has it, its type and its
identifier. A list of them is read as the parameters that were written exactly when the names of all
directives are made of characters that the scan for directives knows.
-/

namespace ApiCollection.Java

open Text

/-- A parameter, with the blanks around it, behind the modifier and in front of its identifier. -/
structure ParameterText where
  front : List Char
  directives : List DirectiveText
  /-- The blanks behind the modifier. -/
  modifier : Option (List Char)
  type : PlainType
  gap : List Char
  identifier : List Char
  trail : List Char

namespace ParameterText

def written (p : ParameterText) : List Written := p.directives.map DirectiveText.written

def modifierText (p : ParameterText) : List Char :=
  p.modifier.elim [] fun blanks => "final".toList ++ blanks

def declaration (p : ParameterText) : List Char :=
  p.modifierText ++ (p.type.text ++ (p.gap ++ p.identifier))

def text (p : ParameterText) : List Char :=
  p.front ++ ((leadText p.written ++ p.declaration) ++ p.trail)

def parameter (p : ParameterText) : Parameter where
  name := String.ofList p.identifier
  type := String.ofList p.type.text
  directives := p.written.map Written.directive

/-- A parameter is well-formed when its parts are, neither its type nor its identifier is the
modifier, and blanks stand behind a last directive without arguments. -/
structure WellFormed (p : ParameterText) : Prop where
  front : p.front.all isBlank = true
  directives : ∀ d ∈ p.directives, d.WellFormed
  parted : ∀ d, p.directives.getLast? = some d → d.arguments = none → d.gap ≠ []
  modifier : ∀ blanks, p.modifier = some blanks → blanks.all isBlank = true ∧ blanks ≠ []
  type : p.type.isWellFormed = true
  typed : p.type.text ≠ "final".toList
  gap : p.gap.all isBlank = true
  apart : p.gap ≠ []
  letters : p.identifier.all isNameLetter = true
  named : p.identifier ≠ []
  identified : p.identifier ≠ "final".toList
  trail : p.trail.all isBlank = true

end ParameterText

def parameterList (ps : List ParameterText) : List Char :=
  joinWith [','] (ps.map ParameterText.text)

namespace ParameterText

section Read

variable {p : ParameterText} (wf : p.WellFormed)

include wf

/-- A declaration has no quotes, at signs and parentheses. -/
theorem not_mem_declaration {c : Char} (sign : c ∈ ['"', '\'', '@', '(']) : c ∉ p.declaration := by
  have others : (isBlank c = false ∧ isTypeChar c = false ∧ isNameLetter c = false) ∧
      c ∉ "final".toList := by
    simp only [List.mem_cons, List.not_mem_nil, or_false] at sign
    obtain rfl | rfl | rfl | rfl := sign <;> decide
  obtain ⟨⟨blank, typeChar, letter⟩, word⟩ := others
  simp only [declaration, List.mem_append, not_or]
  refine ⟨?_, not_mem_of_all (isTypeChar_text p.type wf.type) typeChar,
    not_mem_of_all wf.gap blank, not_mem_of_all wf.letters letter⟩
  rw [modifierText]
  cases modifier : p.modifier with
  | none => exact List.not_mem_nil
  | some gap =>
    rw [Option.elim_some, List.mem_append, not_or]
    exact ⟨word, not_mem_of_all (wf.modifier gap modifier).1 blank⟩

theorem head?_declaration : ∃ c, p.declaration.head? = some c ∧ isBlank c = false := by
  rw [declaration, modifierText]
  cases p.modifier with
  | some gap => exact ⟨'f', rfl, by decide⟩
  | none =>
    obtain ⟨c, head, solid⟩ := head?_text wf.type
    exact ⟨c, by rw [Option.elim_none, List.nil_append, List.head?_append, head]; rfl, solid⟩

theorem solid_identifier : Solid p.identifier :=
  ⟨wf.named, fun c member => isBlank_of_isIdentifierChar
    (isIdentifierChar_of_isNameLetter (List.all_eq_true.1 wf.letters c member))⟩

private theorem getLast?_declaration :
    ∃ c, p.declaration.getLast? = some c ∧ isBlank c = false := by
  obtain ⟨front, c, split⟩ := (List.eq_nil_or_concat p.identifier).resolve_left wf.named
  have solid := (solid_identifier wf).2
  rw [split, List.concat_eq_append] at solid
  refine ⟨c, ?_, solid c (by simp)⟩
  rw [declaration, split, List.concat_eq_append, ← List.append_assoc, ← List.append_assoc,
    ← List.append_assoc, List.getLast?_concat]

/-- What is left of a parameter without the blanks around it. -/
theorem trim_text : trim p.text = leadText p.written ++ p.declaration := by
  obtain ⟨c, head, first⟩ := head?_declaration wf
  obtain ⟨d, ending, last⟩ := getLast?_declaration wf
  have begins : ∃ b, (leadText p.written ++ p.declaration).head? = some b ∧ isBlank b = false := by
    cases p.written with
    | nil => exact ⟨c, head, first⟩
    | cons w ws => exact ⟨'@', rfl, by decide⟩
  obtain ⟨b, begins, solid⟩ := begins
  have ends : (leadText p.written ++ p.declaration).getLast? = some d := by
    rw [List.getLast?_append, ending]
    rfl
  exact trim_between wf.front begins solid ends last wf.trail

/-- The words of a declaration are those of the type and the identifier, with the modifier in front
of them. -/
theorem words_declaration : (words p.declaration).filter (· != "final".toList) =
    words p.type.text ++ [p.identifier] := by
  obtain ⟨-, -, unmodified⟩ := words_text wf.type wf.typed
  have behind : words (p.type.text ++ (p.gap ++ p.identifier)) =
      words p.type.text ++ [p.identifier] := by
    rw [words_gap wf.gap wf.apart, words_of_solid_word (solid_identifier wf)]
  have kept : (words p.type.text ++ [p.identifier]).filter (· != "final".toList) =
      words p.type.text ++ [p.identifier] := by
    rw [List.filter_eq_self, List.forall_mem_append, List.forall_mem_singleton]
    simp only [bne_iff_ne]
    exact ⟨fun w member same => unmodified (same ▸ member), wf.identified⟩
  rw [declaration, modifierText]
  cases modifier : p.modifier with
  | none => rw [Option.elim_none, List.nil_append, behind, kept]
  | some gap =>
    obtain ⟨blank, apart⟩ := wf.modifier gap modifier
    have word : words "final".toList = ["final".toList] := words_of_solid_word (by decide)
    rw [Option.elim_some, List.append_assoc, words_gap blank apart, word, behind,
      List.singleton_append, List.filter_cons_of_neg (by simp), kept]

section Known

variable (known : ∀ d ∈ p.directives, d.qualified.all isNameChar = true)

include known

private theorem scan_text : Java.directives (trim p.text) = p.written.map Written.directive ∧
    words (DirectiveScan.of (trim p.text)).blanked = words p.declaration := by
  obtain ⟨c, head, solid⟩ := head?_declaration wf
  have paren : c ≠ '(' := by
    rintro rfl
    exact not_mem_declaration wf (by decide) (List.mem_of_head? head)
  have legible : ∀ w ∈ p.written, w.Legible := by
    rw [written, List.forall_mem_map]
    exact fun d member => DirectiveText.legible_written (wf.directives d member) (known d member)
  have blank : ∀ w ∈ p.written, w.gap.all isBlank = true := by
    rw [written, List.forall_mem_map]
    exact fun d member => (wf.directives d member).gap
  have parted : ∀ w, p.written.getLast? = some w → w.arguments = none → w.gap = [] →
      p.declaration.head?.any isNameChar = false := by
    intro w last bare empty
    rw [written, List.getLast?_map] at last
    obtain ⟨d, ending, rfl⟩ := Option.map_eq_some_iff.1 last
    exact absurd empty (wf.parted d ending (Option.map_eq_none_iff.1 bare))
  have plain : ∀ c ∈ p.declaration, c ∉ ['"', '\'', '@'] := fun c member sign =>
    not_mem_declaration wf (List.mem_append_left ['('] sign) member
  obtain ⟨found, left⟩ := scan_leadText legible blank (bare_of_head? head solid paren) parted
  obtain ⟨none', whole⟩ := scan_plain plain []
  have empty : (DirectiveScan.of []).blanked = [] := by rw [DirectiveScan.of]; rfl
  have gaps : (p.written.flatMap fun w => ' ' :: w.gap).all isBlank = true := by
    rw [List.all_flatMap, List.all_eq_true]
    exact fun w member => by rw [List.all_cons, blank w member]; decide
  rw [List.append_nil, directives_nil] at none'
  rw [List.append_nil, empty, List.append_nil] at whole
  rw [trim_text wf, found, none', List.append_nil, left, whole, words_blanks_append gaps]
  exact ⟨rfl, rfl⟩

/-- A parameter is read as it is written when the scan knows the characters of its directives. -/
theorem read?_text : Parameter.read? p.text = some p.parameter := by
  obtain ⟨found, left⟩ := scan_text wf known
  obtain ⟨joined, nonempty, -⟩ := words_text wf.type wf.typed
  obtain ⟨last, before, split⟩ := List.exists_cons_of_ne_nil
    (List.reverse_eq_nil_iff.not.2 nonempty)
  have tokens : ((words (DirectiveScan.of (trim p.text)).blanked).filter
      (· != "final".toList)).reverse = p.identifier :: last :: before := by
    rw [left, words_declaration wf, List.reverse_append, split]
    rfl
  rw [Java.directives] at found
  rw [Parameter.read?, tokens, found]
  dsimp only
  rw [← split, List.reverse_reverse, joined]
  rfl

end Known

/-- A parameter is a piece of a list. -/
theorem flat_text : Flat ',' p.text := by
  have blanks {cs : List Char} (h : cs.all isBlank = true) : Balanced ',' cs :=
    balanced_of_plain (plain_of_class (by decide) h)
  have lead : Balanced ',' (leadText p.written) := by
    apply balanced_leadText
    rw [written, List.forall_mem_map]
    exact fun d member => (DirectiveText.balanced_written (wf.directives d member)).append
      (blanks (wf.directives d member).gap)
  have modifier : Balanced ',' p.modifierText := by
    rw [modifierText]
    cases modifier : p.modifier with
    | none => exact balanced_nil
    | some gap =>
      have word : Balanced ',' "final".toList := balanced_of_plain (by decide)
      exact word.append (blanks (wf.modifier gap modifier).1)
  have identifier : Balanced ',' p.identifier :=
    balanced_of_plain (plain_of_class (by decide) wf.letters)
  have declaration : Balanced ',' p.declaration :=
    modifier.append ((balanced_text p.type wf.type).append ((blanks wf.gap).append identifier))
  exact ((blanks wf.front).append ((lead.append declaration).append (blanks wf.trail))).flat

private theorem allBlank_text : allBlank p.text = false := by
  obtain ⟨c, head, solid⟩ := head?_declaration wf
  rw [allBlank, List.all_eq_false]
  refine ⟨c, ?_, by simp [solid]⟩
  simp [text, List.mem_of_head? head]

end Read

end ParameterText

/-- A list of parameters is read as it is written when the scan knows the characters of the names of
all directives. -/
theorem parameters_of_known {ps : List ParameterText} (wf : ∀ p ∈ ps, p.WellFormed)
    (known : ∀ p ∈ ps, ∀ d ∈ p.directives, d.qualified.all isNameChar = true) :
    parameters (parameterList ps) = ps.map ParameterText.parameter := by
  have pieces : splitTopLevel ',' (parameterList ps) = ps.map ParameterText.text := by
    apply splitTopLevel_joinWith rfl
    · rw [List.forall_mem_map]
      exact fun p member => ParameterText.flat_text (wf p member)
    · rw [List.forall_mem_map]
      exact fun p member => ParameterText.allBlank_text (wf p member)
  rw [parameters, pieces, List.filterMap_map, ← List.filterMap_eq_map]
  exact List.filterMap_congr fun p member => ParameterText.read?_text (wf p member) (known p member)

private theorem eq_of_append_eq {p : Char → Bool} {xs ys xs' ys' : List Char} (h : xs.all p = true)
    (h' : xs'.all p = true) (stop : ys.head?.any p = false) (stop' : ys'.head?.any p = false)
    (same : xs ++ ys = xs' ++ ys') : xs = xs' := by
  have front := congrArg (List.takeWhile p) same
  rwa [List.takeWhile_append_of_pos (List.all_eq_true.1 h),
    List.takeWhile_append_of_pos (List.all_eq_true.1 h'), takeWhile_of_head? stop,
    takeWhile_of_head? stop', List.append_nil, List.append_nil] at front

def isNamePart (c : Char) : Bool := !isBlank c && c != '('

private theorem isNamePart_of_class {p : Char → Bool} (solid : ∀ c, p c = true → isBlank c = false)
    (paren : p '(' = false) (c : Char) (h : p c = true) : isNamePart c = true := by
  have other : c ≠ '(' := by
    rintro rfl
    rw [h] at paren
    cases paren
  simp [isNamePart, solid c h, other]

private theorem head?_blanks_paren {space : List Char} (h : space.all isAsciiBlank = true)
    (rest : List Char) : (space ++ '(' :: rest).head?.any isNamePart = false :=
  head?_any_blanks (all_wider (fun _ => isBlank_of_isAsciiBlank) h)
    (fun c blank => by simp [isNamePart, blank]) fun _ => rfl

/-- The directives of a text have names of characters that the scan knows. -/
theorem exists_of_mem_directives {cs : List Char} {d : Directive} (h : d ∈ directives cs) :
    ∃ qualified behind, qualified.all isNameChar = true ∧
      directiveNamed? qualified behind = some d := by
  induction cs using directives_induction with
  | nil => cases h
  | pass front rest ds ih => exact ih h
  | found qualified behind d' ds characters named ih =>
    obtain rfl | later := List.mem_cons.1 h
    · exact ⟨qualified, behind, characters, named⟩
    · exact ih later

/-- A directive that is read as it was written has a name of characters that the scan knows. -/
theorem DirectiveText.known_of_mem {d : DirectiveText} (wf : d.WellFormed) {cs : List Char}
    (h : d.written.directive ∈ directives cs) : d.qualified.all isNameChar = true := by
  obtain ⟨qualified, behind, characters, named⟩ := exists_of_mem_directives h
  have raw : d.qualified ++ d.written.argumentText =
      qualified ++ (argumentList? behind).elim [] fun parts => parts.2.1 := by
    have same := raw_of_directiveNamed? named
    rw [Written.directive, String.toList_ofList, Written.text, List.cons.injEq] at same
    exact same.2
  -- Either name goes on up to a blank, a parenthesis or the end.
  have letters : d.qualified.all isNamePart = true :=
    all_wider (isNamePart_of_class (fun _ => isBlank_of_isQualifiedLetter) (by decide)) wf.letters
  have read : qualified.all isNamePart = true :=
    all_wider (isNamePart_of_class (fun _ name => (of_isDotted (isDotted_of_isNameChar name)).1)
      (by decide)) characters
  have stop : d.written.argumentText.head?.any isNamePart = false := by
    rw [Written.argumentText, written]
    cases arguments : d.arguments with
    | none => rfl
    | some found => exact head?_blanks_paren (wf.space found.1 found.2 arguments) _
  have stop' : ((argumentList? behind).elim [] fun parts => parts.2.1).head?.any
      isNamePart = false := by
    cases list : argumentList? behind with
    | none => rfl
    | some parts =>
      obtain ⟨inside, written, rest⟩ := parts
      obtain ⟨-, space, blank, rfl⟩ := exists_of_argumentList? list
      exact head?_blanks_paren blank _
  rwa [eq_of_append_eq letters read stop stop' raw]

private theorem directives_of_read? {piece : List Char} {q : Parameter}
    (read : Parameter.read? piece = some q) : q.directives = directives (trim piece) := by
  rw [Parameter.read?] at read
  split at read
  · exact congrArg Parameter.directives (Option.some.inj read).symm
  · cases read

/-- A list of parameters is read as it is written, with names, types and directives, if and only if
the names of the directives have no characters but ASCII letters and digits, underscores and
dots. -/
theorem parameters_parameterList_iff {ps : List ParameterText} (wf : ∀ p ∈ ps, p.WellFormed) :
    parameters (parameterList ps) = ps.map ParameterText.parameter ↔
      ∀ p ∈ ps, ∀ d ∈ p.directives, d.qualified.all isNameChar = true := by
  refine ⟨fun same p member d directive => ?_, parameters_of_known wf⟩
  have found : p.parameter ∈ parameters (parameterList ps) := same ▸ List.mem_map_of_mem member
  obtain ⟨piece, -, read⟩ := List.mem_filterMap.1 found
  have inside : d.written.directive ∈ p.parameter.directives :=
    List.mem_map_of_mem (List.mem_map_of_mem directive)
  rw [directives_of_read? read] at inside
  exact DirectiveText.known_of_mem ((wf p member).directives d directive) inside

/-- A list with qualified names, signs in strings, wildcards and array suffixes. -/
def sizesText : ParameterText where
  front := []
  directives := [
    ⟨"api.Size".toList, some ([], [
      ⟨⟨[], [' '], [' '], []⟩, "min".toList, "1, ']@\x7b<(".toList⟩,
      ⟨⟨[' '], [], [], []⟩, "max".toList, []⟩]), [' ']⟩,
    ⟨"NotNull".toList, none, [' ']⟩]
  modifier := some [' ']
  type := ⟨"java.util.Map".toList, [.type ⟨"String".toList, [], []⟩,
    .type ⟨"List".toList, [.bounded .upper ⟨"int".toList, [], [.brackets]⟩], []⟩], [.dots]⟩
  gap := [' ']
  identifier := "sizes".toList
  trail := []

def userText : ParameterText where
  front := [' ']
  directives := [⟨"Valid".toList, some ([], []), []⟩]
  modifier := none
  type := ⟨"UserDto".toList, [], [.brackets]⟩
  gap := ['\t']
  identifier := "größe".toList
  trail := ['\n']

private theorem wellFormed_sizesText : sizesText.WellFormed where
  front := rfl
  directives := by
    simp only [sizesText, List.forall_mem_cons, List.not_mem_nil, false_implies, implies_true,
      and_true]
    refine ⟨⟨by decide, by decide, by decide, ?_, ?_, rfl⟩,
      ⟨by decide, by decide, by decide, nofun, nofun, rfl⟩⟩
    · rintro _ _ ⟨⟩
      rfl
    · rintro _ _ ⟨⟩
      simp only [List.forall_mem_cons, List.not_mem_nil, false_implies, implies_true, and_true]
      exact ⟨⟨rfl, by decide, by decide, by decide⟩, ⟨rfl, by decide, by decide, by decide⟩⟩
  parted := by
    rintro _ ⟨⟩ -
    decide
  modifier := by
    rintro _ ⟨⟩
    decide
  type := by decide
  typed := by decide
  gap := rfl
  apart := by decide
  letters := by decide
  named := by decide
  identified := by decide
  trail := rfl

private theorem wellFormed_userText : userText.WellFormed where
  front := rfl
  directives := by
    simp only [userText, List.forall_mem_cons, List.not_mem_nil, false_implies, implies_true,
      and_true]
    refine ⟨by decide, by decide, by decide, ?_, ?_, rfl⟩
    · rintro _ _ ⟨⟩
      rfl
    · rintro _ _ ⟨⟩
      exact nofun
  parted := by rintro _ ⟨⟩ ⟨⟩
  modifier := nofun
  type := by decide
  typed := by decide
  gap := rfl
  apart := by decide
  letters := by decide
  named := by decide
  identified := by decide
  trail := rfl

theorem parameters_sizesText :
    let written := "@api.Size(min = \"1, ']@\x7b<(\", max=\"\") @NotNull final " ++
      "java.util.Map<String, List<? extends int[]>>... sizes, @Valid()UserDto[]\tgröße\n"
    (∀ p ∈ [sizesText, userText], p.WellFormed) ∧
      parameterList [sizesText, userText] = written.toList ∧
      parameters written.toList = [
        ⟨"sizes", "java.util.Map<String, List<? extends int[]>>...", [
          ⟨"Size", some "min = \"1, ']@\x7b<(\", max=\"\"",
            "@api.Size(min = \"1, ']@\x7b<(\", max=\"\")"⟩,
          ⟨"NotNull", none, "@NotNull"⟩]⟩,
        ⟨"größe", "UserDto[]", [⟨"Valid", some "", "@Valid()"⟩]⟩] := by
  intro written
  have wf : ∀ p ∈ [sizesText, userText], p.WellFormed := by
    simp only [List.forall_mem_cons, List.not_mem_nil, false_implies, implies_true, and_true]
    exact ⟨wellFormed_sizesText, wellFormed_userText⟩
  have text : parameterList [sizesText, userText] = written.toList := by decide +kernel
  refine ⟨wf, text, ?_⟩
  rw [← text, (parameters_parameterList_iff wf).2 (by decide)]
  decide +kernel

/-- A directive whose name has letters that the scan does not know. -/
def measureText : ParameterText where
  front := []
  directives := [⟨"Größe".toList, none, [' ']⟩]
  modifier := none
  type := ⟨"String".toList, [], []⟩
  gap := [' ']
  identifier := "name".toList
  trail := []

private theorem wellFormed_measureText : measureText.WellFormed where
  front := rfl
  directives := by
    simp only [measureText, List.forall_mem_cons, List.not_mem_nil, false_implies, implies_true,
      and_true]
    exact ⟨by decide, by decide, by decide, nofun, nofun, rfl⟩
  parted := by
    rintro _ ⟨⟩ -
    decide
  modifier := nofun
  type := by decide
  typed := by decide
  gap := rfl
  apart := by decide
  letters := by decide
  named := by decide
  identified := by decide
  trail := rfl

/-- The rest of the name of a directive is read as a part of the type. -/
theorem parameters_ne_measureText : (∀ p ∈ [measureText], p.WellFormed) ∧
    parameterList [measureText] = "@Größe String name".toList ∧
    [measureText].map ParameterText.parameter =
      [⟨"name", "String", [⟨"Größe", none, "@Größe"⟩]⟩] ∧
    parameters "@Größe String name".toList = [⟨"name", "öße String", [⟨"Gr", none, "@Gr"⟩]⟩] ∧
    parameters (parameterList [measureText]) ≠ [measureText].map ParameterText.parameter :=
  ⟨List.forall_mem_singleton.2 wellFormed_measureText, by decide +kernel, by decide +kernel,
    by decide +kernel, by decide +kernel⟩

end ApiCollection.Java
