import ApiCollection.Java.ClassHead
import ApiCollection.Proofs.DirectiveLines
import ApiCollection.Proofs.KeywordReading

/-!
# Declarations below a header

A source text that declares a class or a record below a header: package and import lines, comments,
directives and blank lines. The name of a model class is looked for in the whole text, so it is the
declared one exactly when nothing in the header mentions a class or a record.
-/

namespace ApiCollection

open Text Java

/-- The declaration of a class or a record with the text behind its name. -/
structure TypeDeclaration where
  indent : List Char
  /-- The modifiers, each with the blanks behind it. -/
  modifiers : List (String × List Char)
  keyword : String
  gap : List Char
  name : List Char
  rest : List Char

namespace TypeDeclaration

def modifierText (d : TypeDeclaration) : List Char := d.modifiers.flatMap fun m => m.1.toList ++ m.2

def text (d : TypeDeclaration) : List Char :=
  d.indent ++ (d.modifierText ++ (d.keyword.toList ++ (d.gap ++ (d.name ++ d.rest))))

/-- A declaration is well-formed when its parts are what they are called and are set apart. -/
structure WellFormed (d : TypeDeclaration) : Prop where
  indent : d.indent.all isTabOrSpace = true
  modifiers : ∀ m ∈ d.modifiers, m.1 ∈ classModifiers ∧ m.2.all isBlank = true ∧ m.2 ≠ []
  keyword : d.keyword ∈ ["class", "record"]
  gap : d.gap.all isBlank = true
  apart : d.gap ≠ []
  name : d.name.all isWordChar = true
  named : d.name ≠ []
  ends : d.rest.head?.any isWordChar = false

end TypeDeclaration

/-- A line above a declaration, or several lines of directives. -/
inductive HeaderLine where
  | blank (line : List Char)
  /-- A package or import line: its keyword, what is named, and what follows the semicolon. -/
  | statement (indent : List Char) (keyword : String) (gap named trail : List Char)
  | comment (indent line : List Char)
  /-- Directives and what stands behind them on their last line. -/
  | directives (indent : List Char) (ws : List Written) (space remark : List Char)

namespace HeaderLine

def text : HeaderLine → List Char
  | blank line => line
  | statement indent keyword gap named trail =>
    indent ++ (keyword.toList ++ (gap ++ (named ++ ';' :: trail)))
  | comment indent line => indent ++ line
  | directives indent ws space remark => indent ++ (leadText ws ++ (space ++ remark))

def written : HeaderLine → List Written
  | directives _ ws _ _ => ws
  | _ => []

inductive WellFormed : HeaderLine → Prop
  | blank {line : List Char} (blank : line.all isBlank = true) (oneLine : '\n' ∉ line) :
      WellFormed (.blank line)
  | statement {indent : List Char} {keyword : String} {gap named trail : List Char}
      (blank : indent.all isTabOrSpace = true) (keyword' : keyword ∈ ["package", "import"])
      (gap' : gap.all isBlank = true) (apart : gap ≠ [])
      (oneLine : '\n' ∉ gap ++ (named ++ ';' :: trail)) :
      WellFormed (.statement indent keyword gap named trail)
  | comment {indent line : List Char} (blank : indent.all isTabOrSpace = true)
      (oneLine : '\n' ∉ line)
      (begins : ∃ start ∈ ["//", "/*", "*"], start.toList <+: line) : WellFormed (.comment indent line)
  | directives {indent : List Char} {ws : List Written} {space remark : List Char}
      (blank : indent.all isTabOrSpace = true) (readable : ∀ w ∈ ws, w.Readable) (nonempty : ws ≠ [])
      (space' : space.all isBlank = true) (oneLine : '\n' ∉ space ++ remark)
      (begins : remark = [] ∨ ∃ start ∈ ["//", "/*"], start.toList <+: remark) :
      WellFormed (.directives indent ws space remark)

end HeaderLine

def headerText (lines : List HeaderLine) : List Char := lines.flatMap fun l => l.text ++ ['\n']

theorem areWords_modelKeywords : AreWords ["class", "record"] := by decide

theorem areWords_classKeywords : AreWords classKeywords := by decide

theorem areWords_classModifiers : AreWords classModifiers := by decide

private theorem headerText_eq_nil_or (lines : List HeaderLine) :
    headerText lines = [] ∨ ∃ front, headerText lines = front ++ ['\n'] := by
  rcases List.eq_nil_or_concat lines with rfl | ⟨lines, l, rfl⟩
  · exact Or.inl rfl
  · refine Or.inr ⟨headerText lines ++ l.text, ?_⟩
    simp [headerText]

namespace TypeDeclaration

variable {d : TypeDeclaration} (wf : d.WellFormed)

include wf

theorem run_keyword : (d.keyword.toList ++ (d.gap ++ (d.name ++ d.rest))).takeWhile isWordChar =
    d.keyword.toList := by
  have letters := List.all_eq_true.1 (areWords_modelKeywords _ wf.keyword).1
  have ends : (d.gap ++ (d.name ++ d.rest)).head?.any isWordChar = false :=
    head?_any_blanks wf.gap (fun c blank => (of_isBlank blank).1) fun empty => absurd empty wf.apart
  rw [List.takeWhile_append_of_pos letters, takeWhile_of_head? ends, List.append_nil]

private theorem word?_name : word? (d.name ++ d.rest) = some (d.name, d.rest) ∧
    (d.name ++ d.rest).head?.any isBlank = false := by
  have word : word? (d.name ++ d.rest) = some (d.name, d.rest) :=
    run?_append wf.name wf.named wf.ends
  have begins : (d.name ++ d.rest).head?.any isWordChar = true := by
    rw [← word?_isSome, word]
    rfl
  obtain ⟨c, head, letter⟩ := (Option.any_eq_true _ _).1 begins
  rw [head]
  exact ⟨word, isBlank_of_isWordChar letter⟩

/-- The name is read behind its keyword. -/
theorem wordBehind?_keyword {keywords : List String} (words : AreWords keywords)
    (member : d.keyword ∈ keywords) :
    wordBehind? keywords (d.keyword.toList ++ (d.gap ++ (d.name ++ d.rest))) = some d.name := by
  obtain ⟨word, begins⟩ := word?_name wf
  have keyword := keyword?_append words member wf.gap wf.apart begins
  simp only [wordBehind?, keyword, word, bind, Option.bind_some, pure]

end TypeDeclaration

def FindsName (P : List Char → Prop) (cs : List Char) : Prop :=
  ∀ prev, ∃ n, findFrom (fun _ cs => Dto.declaredName? cs) prev cs = some n ∧ P n

theorem declaredName?_eq (cs : List Char) :
    Dto.declaredName? cs = wordBehind? ["class", "record"] cs := rfl

theorem FindsName.append {P : List Char → Prop} {xs ys : List Char} (behind : FindsName P ys)
    (front : ∀ f s, xs = f ++ s → s ≠ [] → ∀ n, Dto.declaredName? (s ++ ys) = some n → P n) :
    FindsName P (xs ++ ys) := fun _ => findFrom_append xs front (behind _)

theorem FindsName.blanks {P : List Char → Prop} {ys blanks : List Char} (behind : FindsName P ys)
    (blank : blanks.all isBlank = true) : FindsName P (blanks ++ ys) := by
  apply behind.append
  intro f s split nonempty n found
  obtain ⟨c, rest, rfl⟩ := List.exists_cons_of_ne_nil nonempty
  have gap : isBlank c = true := by
    apply List.all_eq_true.1 blank
    simp [split]
  have none' := @wordBehind?_of_head? _ areWords_modelKeywords (c :: rest ++ ys)
    (by simpa using (of_isBlank gap).1)
  rw [declaredName?_eq, none'] at found
  cases found

private theorem FindsName.modifiers {P : List Char → Prop} {ys : List Char}
    (behind : FindsName P ys)
    {ms : List (String × List Char)}
    (wf : ∀ m ∈ ms, m.1 ∈ classModifiers ∧ m.2.all isBlank = true ∧ m.2 ≠ []) :
    FindsName P ((ms.flatMap fun m => m.1.toList ++ m.2) ++ ys) := by
  induction ms with
  | nil => exact behind
  | cons m ms ih =>
    rw [List.forall_mem_cons] at wf
    obtain ⟨⟨member, blank, apart⟩, wf⟩ := wf
    have later := (ih wf).blanks blank
    have split : ((m :: ms).flatMap fun m => m.1.toList ++ m.2) ++ ys =
        m.1.toList ++ (m.2 ++ ((ms.flatMap fun m => m.1.toList ++ m.2) ++ ys)) := by
      simp
    rw [split]
    apply later.append
    intro f s cut nonempty n found
    have letters := (areWords_classModifiers _ member).1
    rw [cut, List.all_append, Bool.and_eq_true] at letters
    have ends : (m.2 ++ ((ms.flatMap fun m => m.1.toList ++ m.2) ++ ys)).head?.any isWordChar =
        false := head?_any_blanks blank (fun c blank => (of_isBlank blank).1) fun h => absurd h apart
    have other : ∀ word ∈ classModifiers, ∀ tail ∈ word.toList.tails,
        String.ofList tail ∉ ["class", "record"] := by decide
    rw [declaredName?_eq, wordBehind?_eq areWords_modelKeywords,
      List.takeWhile_append_of_pos (List.all_eq_true.1 letters.2), takeWhile_of_head? ends,
      List.append_nil, if_neg (other _ member s ((List.mem_tails s _).2 ⟨f, cut.symm⟩))] at found
    cases found

private theorem TypeDeclaration.findsName {d : TypeDeclaration} (wf : d.WellFormed) :
    FindsName (· = d.name) d.text := by
  have keyword : FindsName (· = d.name) (d.keyword.toList ++ (d.gap ++ (d.name ++ d.rest))) :=
    fun prev => ⟨d.name, findFrom_of_read (wordBehind?_keyword wf areWords_modelKeywords wf.keyword),
      rfl⟩
  exact (keyword.modifiers wf.modifiers).blanks (all_isBlank wf.indent)

/-- A part of a header that reaches to its end has the end of a line. -/
theorem eq_append_of_suffix {lines : List HeaderLine} {f s : List Char}
    (split : headerText lines = f ++ s) (nonempty : s ≠ []) : ∃ front, s = front ++ ['\n'] := by
  rcases List.eq_nil_or_concat s with rfl | ⟨front, c, rfl⟩
  · exact absurd rfl nonempty
  · rcases headerText_eq_nil_or lines with empty | ⟨text, ends⟩
    · simp [empty] at split
    · rw [split, List.concat_eq_append, ← List.append_assoc] at ends
      have last := (List.append_inj' ends rfl).2
      exact ⟨front, by rw [List.concat_eq_append, last]⟩

private theorem findsName_of_not_mentions {lines : List HeaderLine}
    (h : mentions ["class", "record"] (headerText lines) = false) {d : TypeDeclaration}
    (wf : d.WellFormed) : FindsName (· = d.name) (headerText lines ++ d.text) := by
  apply (TypeDeclaration.findsName wf).append
  intro f s split nonempty n found
  obtain ⟨front, rfl⟩ := eq_append_of_suffix split nonempty
  rw [declaredName?_eq, List.append_assoc, List.singleton_append] at found
  have mention := mentionsHere_of_wordBehind? (by decide) front areWords_modelKeywords found
  rw [mentions_eq_false.1 h f _ split] at mention
  cases mention

def plainClass (name : List Char) : TypeDeclaration :=
  ⟨[], [], "class", [' '], name, "\x7b\x7d".toList⟩

theorem wellFormed_plainClass {name : List Char} (letters : name.all isWordChar = true)
    (named : name ≠ []) : (plainClass name).WellFormed :=
  ⟨rfl, by simp [plainClass], by simp [plainClass], rfl, by simp [plainClass], letters, named, rfl⟩

private theorem word?_plainClass (name : List Char) : word? (trimStart (plainClass name).text) =
    some ("class".toList, ' ' :: (name ++ "\x7b\x7d".toList)) := by
  have text : (plainClass name).text = "class".toList ++ ' ' :: (name ++ "\x7b\x7d".toList) := by
    simp [plainClass, TypeDeclaration.text, TypeDeclaration.modifierText]
  have letter : isBlank 'c' = false := by decide
  have gap : isWordChar ' ' = false := by decide
  rw [text, trimStart_of_head? (by simpa using letter)]
  exact run?_append (by decide) (by decide) (by simpa using gap)

/-- A mention in the header of a class is read as the declaration of what follows it, which is part
of the header or the keyword of the class. -/
theorem exists_declaredName? {lines : List HeaderLine} (name : List Char) {f s : List Char}
    (split : headerText lines = f ++ s) (nonempty : s ≠ [])
    (mention : mentionsHere ["class", "record"] s = true) :
    ∃ n, Dto.declaredName? (s ++ (plainClass name).text) = some n ∧
      (n.length ≤ (headerText lines).length ∨ n = "class".toList) := by
  obtain ⟨front, rfl⟩ := eq_append_of_suffix split nonempty
  obtain ⟨n, found, which⟩ := wordBehind?_of_mentionsHere (by decide) front
    areWords_modelKeywords (by decide) mention (word?_plainClass name)
  refine ⟨n, by simpa [declaredName?_eq] using found, which.imp_left fun short => ?_⟩
  have whole := congrArg List.length split
  simp only [List.length_append, List.length_singleton] at whole
  omega

/-- The name that is found in front of a class because of a mention is part of the header or the
keyword of the class. -/
theorem findsName_of_mentions {lines : List HeaderLine}
    (h : mentions ["class", "record"] (headerText lines) = true) (name : List Char) :
    FindsName (fun n => n.length ≤ (headerText lines).length ∨ n = "class".toList)
      (headerText lines ++ (plainClass name).text) := by
  obtain ⟨s, member, mention⟩ := List.any_eq_true.1 h
  obtain ⟨f, split⟩ := (List.mem_tails s _).1 member
  have nonempty : s ≠ [] := by
    rintro rfl
    cases mention
  rw [← split, List.append_assoc]
  apply FindsName.append
  · intro prev
    obtain ⟨n, found, which⟩ := exists_declaredName? name split.symm nonempty mention
    rw [split]
    exact ⟨n, findFrom_of_read found, which⟩
  · -- what is read in front of the mention is a mention, too
    intro f' s' cut nonempty' n found
    have split' : headerText lines = f' ++ (s' ++ s) := by
      rw [← split, cut, List.append_assoc]
    have nonempty'' : s' ++ s ≠ [] := by simp [nonempty']
    rw [← List.append_assoc] at found
    obtain ⟨front, ends⟩ := eq_append_of_suffix split' nonempty''
    have mention' : mentionsHere ["class", "record"] (s' ++ s) = true := by
      rw [ends]
      rw [ends, List.append_assoc, List.singleton_append, declaredName?_eq] at found
      exact mentionsHere_of_wordBehind? (by decide) front areWords_modelKeywords found
    obtain ⟨n', found', which⟩ := exists_declaredName? name split' nonempty'' mention'
    rw [found, Option.some.injEq] at found'
    rwa [split, found']

private theorem name_ofSource? (source : List Char) (path : Option String) :
    (Dto.ofSource? source path).map (·.name) =
      (find? (fun _ cs => Dto.declaredName? cs) source).map String.ofList := by
  rw [Dto.ofSource?]
  cases find? (fun _ cs => Dto.declaredName? cs) source <;> rfl

/-- A model class has the declared name, whatever is declared, exactly when the header mentions no
class and no record. -/
theorem name_ofSource?_iff (lines : List HeaderLine) :
    (∀ d : TypeDeclaration, d.WellFormed → ∀ path,
      (Dto.ofSource? (headerText lines ++ d.text) path).map (·.name) =
        some (String.ofList d.name)) ↔
      mentions ["class", "record"] (headerText lines) = false := by
  constructor
  · intro named
    by_contra mentioned
    rw [Bool.not_eq_false] at mentioned
    -- a name that is longer than everything above it
    let name := List.replicate ((headerText lines).length + 6) 'N'
    have letters : name.all isWordChar = true := by simp [name]; decide
    have found := named (plainClass name) (wellFormed_plainClass letters (by simp [name])) none
    obtain ⟨n, first, which⟩ := findsName_of_mentions mentioned name none
    have same : find? (fun _ cs => Dto.declaredName? cs) (headerText lines ++ (plainClass name).text) =
        some n := first
    rw [name_ofSource?, same, Option.map_some, Option.some.injEq, String.ofList_inj] at found
    have length : n.length = (headerText lines).length + 6 := by
      rw [found]
      simp [plainClass, name]
    rcases which with short | rfl
    · omega
    · simp at length
  · intro quiet d wf path
    obtain ⟨n, found, rfl⟩ := findsName_of_not_mentions quiet wf none
    rw [name_ofSource?, find?, found]
    rfl

end ApiCollection
