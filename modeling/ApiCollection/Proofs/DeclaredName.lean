import ApiCollection.Proofs.CollectedDirectives
import ApiCollection.Proofs.TypeBehind

/-!
# The declared name

The class head of a source text is read at the start of a line, so comments above a declaration do
not matter to it, and directives only where their arguments look like a declaration. A model class
and the class head of a text have the declared name exactly when the header mentions no class and no
record.
-/

namespace ApiCollection

open Text Java

section Declaration

variable {d : TypeDeclaration} (wf : d.WellFormed)

include wf

private theorem head?_keyword :
    ∃ c, (d.keyword.toList ++ (d.gap ++ (d.name ++ d.rest))).head? = some c ∧
    isWordChar c = true := by
  obtain ⟨letters, nonempty⟩ := areWords_modelKeywords _ wf.keyword
  obtain ⟨c, rest, cons⟩ := List.exists_cons_of_ne_nil nonempty
  rw [cons, List.all_cons, Bool.and_eq_true] at letters
  exact ⟨c, by rw [cons]; rfl, letters.1⟩

/-- The modifiers of a declaration are skipped. -/
theorem skipAll_modifiers {ms : List (String × List Char)}
    (wf' : ∀ m ∈ ms, m.1 ∈ classModifiers ∧ m.2.all isBlank = true ∧ m.2 ≠ []) :
    skipAll afterModifier? ((ms.flatMap fun m => m.1.toList ++ m.2) ++
      (d.keyword.toList ++ (d.gap ++ (d.name ++ d.rest)))) =
        d.keyword.toList ++ (d.gap ++ (d.name ++ d.rest)) ∧
    ∃ c, ((ms.flatMap fun m => m.1.toList ++ m.2) ++
      (d.keyword.toList ++ (d.gap ++ (d.name ++ d.rest)))).head? = some c ∧ isWordChar c = true := by
  induction ms with
  | nil =>
    refine ⟨skipAll_of_none ?_, head?_keyword wf⟩
    have other : ∀ word ∈ ["class", "record"], word ∉ classModifiers := by decide
    rw [List.flatMap_nil, List.nil_append, afterModifier?_eq, TypeDeclaration.run_keyword wf,
      String.ofList_toList, if_neg (other _ wf.keyword)]
  | cons m ms ih =>
    rw [List.forall_mem_cons] at wf'
    obtain ⟨⟨member, blank, apart⟩, wf'⟩ := wf'
    obtain ⟨later, c, head, letter⟩ := ih wf'
    obtain ⟨letters, nonempty⟩ := areWords_classModifiers _ member
    generalize behind : (ms.flatMap fun m => m.1.toList ++ m.2) ++
      (d.keyword.toList ++ (d.gap ++ (d.name ++ d.rest))) = ys at later head
    have split : ((m :: ms).flatMap fun m => m.1.toList ++ m.2) ++
        (d.keyword.toList ++ (d.gap ++ (d.name ++ d.rest))) = m.1.toList ++ (m.2 ++ ys) := by
      rw [← behind]
      simp
    have begins : ys.head?.any isBlank = false := by
      rw [head]
      exact isBlank_of_isWordChar letter
    have skipped : afterModifier? (m.1.toList ++ (m.2 ++ ys)) = some ys := by
      rw [afterModifier?, keyword?_append areWords_classModifiers member blank apart begins]
      rfl
    rw [split]
    constructor
    · rw [skipAll_of_some skipped, later]
      have some' := List.length_pos_iff.2 nonempty
      simp only [List.length_append]
      omega
    · obtain ⟨c, rest, cons⟩ := List.exists_cons_of_ne_nil nonempty
      rw [cons, List.all_cons, Bool.and_eq_true] at letters
      exact ⟨c, by rw [cons]; rfl, letters.1⟩

theorem typeName?_declaration :
    typeName? (d.modifierText ++ (d.keyword.toList ++ (d.gap ++ (d.name ++ d.rest)))) =
        some d.name ∧
      ∃ c, (d.modifierText ++ (d.keyword.toList ++ (d.gap ++ (d.name ++ d.rest)))).head? = some c ∧
        isWordChar c = true := by
  obtain ⟨skipped, c, head, letter⟩ := skipAll_modifiers wf wf.modifiers
  have sign : (d.modifierText ++ (d.keyword.toList ++ (d.gap ++ (d.name ++ d.rest)))).head? ≠
      some '@' := by
    rw [TypeDeclaration.modifierText, head]
    rintro ⟨⟩
    exact absurd letter (by decide)
  have member : ∀ word ∈ ["class", "record"], word ∈ classKeywords := by decide
  refine ⟨?_, c, head, letter⟩
  rw [typeName?, skipAll_of_none (afterPlainDirective?_of_head? sign),
    TypeDeclaration.modifierText, skipped,
    TypeDeclaration.wordBehind?_keyword wf areWords_classKeywords (member _ wf.keyword)]

end Declaration

theorem drop_indent {indent cs : List Char} (blank : indent.all isTabOrSpace = true) {c : Char}
    (head : cs.head? = some c) (solid : isBlank c = false) :
    trimStart (indent ++ cs) = cs ∧ (indent ++ cs).dropWhile isTabOrSpace = cs := by
  have begins : cs.head?.any isBlank = false := by
    rw [head]
    exact solid
  have begins' : cs.head?.any isTabOrSpace = false := by
    rw [head, Option.any_some, Bool.eq_false_iff]
    intro tab
    rw [isBlank_of_isTabOrSpace tab] at solid
    cases solid
  refine ⟨trimStart_blanks (all_isBlank blank) begins, ?_⟩
  rw [List.dropWhile_append_of_pos (List.all_eq_true.1 blank), dropWhile_of_head? begins']

/-- A package or import line declares no type. -/
theorem declares_statement {keyword : String} (keyword' : keyword ∈ ["package", "import"])
    {gap : List Char} (blank : gap.all isBlank = true) (apart : gap ≠ []) (name rest : List Char) :
    Declares name (keyword.toList ++ (gap ++ rest)) ∧
      ∃ c, (keyword.toList ++ (gap ++ rest)).head? = some c ∧ isBlank c = false := by
  have facts : ∀ word ∈ ["package", "import"], word.toList.all isWordChar = true ∧
      word ∉ classModifiers ++ classKeywords := by decide
  have begins : ∀ word ∈ ["package", "import"], ∃ c, word.toList.head? = some c ∧
      isBlank c = false ∧ c ≠ '@' := by
    intro word member
    simp only [List.mem_cons, List.not_mem_nil, or_false] at member
    rcases member with rfl | rfl
    · exact ⟨'p', by decide⟩
    · exact ⟨'i', by decide⟩
  obtain ⟨letters, other⟩ := facts _ keyword'
  obtain ⟨c, first, solid, sign⟩ := begins _ keyword'
  have head : (keyword.toList ++ (gap ++ rest)).head? = some c := by
    rw [List.head?_append, first]
    rfl
  have ends : (gap ++ rest).head?.any isWordChar = false :=
    head?_any_blanks blank (fun c blank => (of_isBlank blank).1) fun h => absurd h apart
  refine ⟨declares_of_other ?_ ?_ name, c, head, solid⟩
  · rw [head]
    rintro ⟨⟩
    exact sign rfl
  · rwa [List.takeWhile_append_of_pos (List.all_eq_true.1 letters), takeWhile_of_head? ends,
      List.append_nil, String.ofList_toList]

/-- A comment declares no type. -/
theorem declares_comment {line : List Char}
    (begins : ∃ start ∈ ["//", "/*", "*"], start.toList <+: line)
    (name rest : List Char) : Declares name (line ++ rest) ∧
      ∃ c, (line ++ rest).head? = some c ∧ isBlank c = false ∧ joinsDirective c = false := by
  have first : ∃ c, line.head? = some c ∧ isBlank c = false ∧ isWordChar c = false ∧ c ≠ '@' ∧
      joinsDirective c = false := by
    obtain ⟨start, member, behind, rfl⟩ := begins
    simp only [List.mem_cons, List.not_mem_nil, or_false] at member
    rcases member with rfl | rfl | rfl
    · exact ⟨'/', rfl, by decide⟩
    · exact ⟨'/', rfl, by decide⟩
    · exact ⟨'*', rfl, by decide⟩
  obtain ⟨c, first, solid, word, sign, joins⟩ := first
  have head : (line ++ rest).head? = some c := by
    rw [List.head?_append, first]
    rfl
  refine ⟨declares_of_head? ?_ ?_ name, c, head, solid, joins⟩
  · rw [head]
    rintro ⟨⟩
    exact sign rfl
  · rwa [head]

/-- What stands behind the directives on their last line declares no type. -/
theorem declares_remark {space remark : List Char} (blank : space.all isBlank = true)
    (begins : remark = [] ∨ ∃ start ∈ ["//", "/*"], start.toList <+: remark) {name next : List Char}
    (behind : Declares name (trimStart next)) :
    Declares name (trimStart (space ++ (remark ++ '\n' :: next))) ∧
      (space ++ (remark ++ '\n' :: next)).head?.any joinsDirective = false := by
  rw [trimStart_blanks_append blank]
  rcases begins with rfl | ⟨start, member, begins⟩
  · constructor
    · exact behind
    · exact head?_any_blanks blank (fun c blank => joinsDirective_of_isBlank blank) fun _ => by
        simp only [List.nil_append, List.head?_cons, Option.any_some]
        decide
  · have member' : start ∈ ["//", "/*", "*"] := by
      simp only [List.mem_cons, List.not_mem_nil, or_false] at member ⊢
      tauto
    obtain ⟨declares, c, head, solid, joins⟩ :=
      declares_comment ⟨start, member', begins⟩ name ('\n' :: next)
    constructor
    · rwa [trimStart_of_head? (by rw [head]; exact solid)]
    · exact head?_any_blanks blank (fun c blank => joinsDirective_of_isBlank blank) fun _ => by
        rw [head]
        exact joins

/-- Nothing is declared where blanks lead to the end of a line. -/
theorem declares_blanks {blanks : List Char} (h : blanks.all isBlank = true)
    (name next : List Char) :
    Declares name (blanks ++ '\n' :: next) := by
  refine declares_of_head? ?_ ?_ name
  · have other : (blanks ++ '\n' :: next).head?.any (· == '@') = false := by
      refine head?_any_blanks h (fun c blank => ?_) fun _ => rfl
      rw [beq_eq_false_iff_ne]
      rintro rfl
      exact absurd blank (by decide)
    intro sign
    rw [sign] at other
    cases other
  · refine head?_any_blanks h (fun c blank => (of_isBlank blank).1) fun _ => ?_
    rw [List.head?_cons, Option.any_some]
    decide

/-- At the start of a line of a header, with its blanks left out, nothing else than below the line is
declared. -/
theorem declares_line {l : HeaderLine} (wf : l.WellFormed)
    (quiet : ∀ w ∈ l.written, Quiet w) {name next : List Char}
    (behind : Declares name (trimStart next)) :
    Declares name (trimStart (l.text ++ '\n' :: next)) ∧
      Declares name ((l.text ++ '\n' :: next).dropWhile isTabOrSpace) := by
  have feed : trimStart ('\n' :: next) = trimStart next := by
    rw [trimStart, List.dropWhile_cons_of_pos (by decide)]
    rfl
  cases wf with
  | @blank line blank oneLine =>
    have left : (line.dropWhile isTabOrSpace).all isBlank = true := by
      rw [List.all_eq_true] at blank ⊢
      exact fun c hc => blank c ((List.dropWhile_sublist _).mem hc)
    rw [HeaderLine.text, trimStart, List.dropWhile_append_of_pos (List.all_eq_true.1 blank),
      dropWhile_stop (by decide)]
    exact ⟨by rwa [← trimStart, feed], declares_blanks left name next⟩
  | @statement indent keyword gap named trail blank keyword' gap' apart oneLine =>
    have text : (HeaderLine.statement indent keyword gap named trail).text ++ '\n' :: next =
        indent ++ (keyword.toList ++ (gap ++ (named ++ ';' :: (trail ++ '\n' :: next)))) := by
      simp [HeaderLine.text]
    obtain ⟨declares, c, head, solid⟩ := declares_statement keyword' gap' apart name
      (named ++ ';' :: (trail ++ '\n' :: next))
    obtain ⟨trimmed, dropped⟩ := drop_indent blank head solid
    rw [text, trimmed, dropped]
    exact ⟨declares, declares⟩
  | @comment indent line blank oneLine begins =>
    obtain ⟨declares, c, head, solid, -⟩ := declares_comment begins name ('\n' :: next)
    obtain ⟨trimmed, dropped⟩ := drop_indent blank head solid
    rw [HeaderLine.text, List.append_assoc, trimmed, dropped]
    exact ⟨declares, declares⟩
  | @directives indent ws space remark blank readable nonempty space' oneLine begins =>
    obtain ⟨rest, ends⟩ := declares_remark space' begins behind
    have declares := (declares_leadText readable quiet ends rest).1
    have head : (leadText ws ++ (space ++ (remark ++ '\n' :: next))).head? = some '@' := by
      obtain ⟨w, ws, rfl⟩ := List.exists_cons_of_ne_nil nonempty
      rfl
    obtain ⟨trimmed, dropped⟩ := drop_indent blank head (by decide)
    rw [trimStart_of_head? (by rw [head]; rfl)] at declares
    rw [HeaderLine.text, List.append_assoc, List.append_assoc, List.append_assoc, trimmed, dropped]
    exact ⟨declares, declares⟩

/-- A line break within a header line stands in its directives. -/
theorem declares_of_break {l : HeaderLine} (wf : l.WellFormed) (quiet : ∀ w ∈ l.written, Quiet w)
    {name next : List Char} (behind : Declares name (trimStart next)) {f s : List Char}
    (split : l.text = f ++ '\n' :: s) : Declares name ((s ++ '\n' :: next).dropWhile isTabOrSpace) := by
  have member : '\n' ∈ l.text := by simp [split]
  cases wf with
  | @blank line blank oneLine => exact absurd member oneLine
  | @statement indent keyword gap named trail blank keyword' gap' apart oneLine =>
    have words : ∀ word ∈ ["package", "import"], '\n' ∉ word.toList := by decide
    rw [HeaderLine.text, List.mem_append, List.mem_append] at member
    obtain front | front | behind := member
    · exact absurd front (not_mem_of_plain blank (by decide))
    · exact absurd front (words _ keyword')
    · exact absurd behind oneLine
  | @comment indent line blank oneLine begins =>
    obtain front | behind := List.mem_append.1 member
    · exact absurd front (not_mem_of_plain blank (by decide))
    · exact absurd behind oneLine
  | @directives indent ws space remark blank readable nonempty space' oneLine begins =>
    obtain ⟨rest, ends⟩ := declares_remark space' begins behind
    obtain ⟨read, more, -, same, rfl⟩ :=
      exists_of_mem_middle (not_mem_of_plain blank (by decide)) oneLine split
    have declares := declares_break readable quiet ends rest same
    simpa using declares

/-- At no place of a header line another type is declared than below it. -/
theorem classDeclaration?_line {l : HeaderLine} (wf : l.WellFormed)
    (quiet : ∀ w ∈ l.written, Quiet w) {name next : List Char}
    (behind : Declares name (trimStart next)) {prev : Option Char} {f s : List Char}
    (split : l.text ++ ['\n'] = f ++ s) (nonempty : s ≠ []) {a : String × List Char}
    (found : classDeclaration? (f.getLast?.or prev) (s ++ next) = some a) :
    a.1 = String.ofList name := by
  have declared := name_classDeclaration? (f.getLast?.or prev) (s ++ next)
  rw [found, Option.map_some] at declared
  split at declared
  swap
  · cases declared
  rename_i start
  obtain ⟨n, read, same⟩ := Option.map_eq_some_iff.1 declared.symm
  rw [← same, String.ofList_inj]
  rcases List.eq_nil_or_concat f with rfl | ⟨f, c, rfl⟩
  · rw [List.nil_append] at split
    rw [← split, List.append_assoc] at read
    exact (declares_line wf quiet behind).2 n read
  · obtain rfl : c = '\n' := by simpa [atLineStart] using start
    rcases List.eq_nil_or_concat s with rfl | ⟨s, c, rfl⟩
    · exact absurd rfl nonempty
    have inner : l.text = f ++ '\n' :: s ∧ c = '\n' := by
      have same : l.text ++ ['\n'] = (f ++ '\n' :: s) ++ [c] := by simpa using split
      obtain ⟨text, last⟩ := List.append_inj' same rfl
      exact ⟨text, (List.singleton_inj.1 last).symm⟩
    obtain ⟨text, rfl⟩ := inner
    rw [List.concat_eq_append, List.append_assoc] at read
    exact declares_of_break wf quiet behind text n read

theorem headerText_cons (l : HeaderLine) (lines : List HeaderLine) (rest : List Char) :
    headerText (l :: lines) ++ rest = (l.text ++ ['\n']) ++ (headerText lines ++ rest) := by
  simp [headerText]

section Header

variable {lines : List HeaderLine} (wf : ∀ l ∈ lines, l.WellFormed)
  (quiet : ∀ l ∈ lines, ∀ w ∈ l.written, Quiet w) {d : TypeDeclaration}
  (wfDeclaration : d.WellFormed)

include wf quiet wfDeclaration

/-- Behind the blanks of a header no other type is declared than below it. -/
theorem declares_header : Declares d.name (trimStart (headerText lines ++ d.text)) := by
  induction lines with
  | nil =>
    obtain ⟨declares, c, head, letter⟩ := typeName?_declaration wfDeclaration
    have trimmed := (drop_indent wfDeclaration.indent head (isBlank_of_isWordChar letter)).1
    intro n found
    rw [headerText, List.flatMap_nil, List.nil_append, TypeDeclaration.text, trimmed, declares] at found
    exact (Option.some.inj found).symm
  | cons l lines ih =>
    rw [List.forall_mem_cons] at wf quiet
    have line := declares_line wf.1 quiet.1 (ih wf.2 quiet.2)
    rw [headerText_cons, List.append_assoc]
    exact line.1

/-- From the start of a line of a header on the class head is that of the declaration. -/
theorem findFrom_header {prev : Option Char} (start : atLineStart prev = true) :
    ∃ a, findFrom classDeclaration? prev (headerText lines ++ d.text) = some a ∧
      a.1 = String.ofList d.name := by
  induction lines generalizing prev with
  | nil =>
    obtain ⟨declares, c, head, letter⟩ := typeName?_declaration wfDeclaration
    have dropped := (drop_indent wfDeclaration.indent head (isBlank_of_isWordChar letter)).2
    have read := name_classDeclaration? prev d.text
    rw [if_pos start, TypeDeclaration.text, dropped, declares] at read
    obtain ⟨a, found, name⟩ := Option.map_eq_some_iff.1 read
    exact ⟨a, findFrom_of_read found, name⟩
  | cons l lines ih =>
    rw [List.forall_mem_cons] at wf quiet
    have behind := declares_header wf.2 quiet.2 wfDeclaration
    rw [headerText_cons]
    apply findFrom_append
    · intro f s split nonempty a found
      exact classDeclaration?_line wf.1 quiet.1 behind split nonempty found
    · rw [List.getLast?_concat]
      exact ih wf.2 quiet.2 rfl

private theorem name_classHead :
    (ClassHead.of (headerText lines ++ d.text)).name = String.ofList d.name := by
  obtain ⟨⟨name, declaration⟩, found, rfl⟩ := @findFrom_header _ wf quiet _ wfDeclaration none rfl
  rw [ClassHead.of, find?, find?, found]

end Header

private theorem mentionsHere_classKeywords (s : List Char) : mentionsHere classKeywords s =
    (mentionsHere ["class", "record"] s || mentionsHere ["interface"] s) := by
  have split (word : String) : classKeywords.contains word =
      (["class", "record"].contains word || ["interface"].contains word) := by
    simp only [classKeywords, List.contains_cons, List.contains_nil, Bool.or_false]
    cases word == "class" <;> cases word == "interface" <;> cases word == "record" <;> rfl
  rw [mentionsHere, mentionsHere, mentionsHere, split, Bool.and_or_distrib_right]

/-- A directive is quiet when it mentions no interface and its header no class and no record. -/
theorem quiet_of_not_mentions {lines : List HeaderLine}
    (h : mentions ["class", "record"] (headerText lines) = false) {l : HeaderLine} (member : l ∈ lines)
    {w : Written} (member' : w ∈ l.written) (h' : mentions ["interface"] w.text = false) :
    Quiet w := by
  obtain ⟨front, behind, text⟩ : w.text <:+: headerText lines := by
    have line : l.text ++ ['\n'] <:+: headerText lines :=
      List.infix_of_mem_flatten (List.mem_map_of_mem member)
    refine List.IsInfix.trans ?_ line
    cases l with
    | directives indent ws space remark =>
      have lead : w.text ++ w.gap <:+: leadText ws :=
        List.infix_of_mem_flatten (List.mem_map_of_mem member')
      refine ((List.prefix_append _ _).isInfix.trans lead).trans ?_
      exact ⟨indent, space ++ (remark ++ ['\n']), by simp [HeaderLine.text]⟩
    | blank line => cases member'
    | statement indent keyword gap named trail => cases member'
    | comment indent line => cases member'
  rintro t ⟨front', ends⟩
  have here := mentions_eq_false.1 h (front ++ front') (t ++ ')' :: behind) (by simp [← text, ← ends])
  rw [mentionsHere_stop (by decide) t (by decide)] at here
  rw [mentionsHere_classKeywords, here, mentions_eq_false.1 h' front' _ ends.symm, Bool.or_false]

/-- A header with a directive over several lines. -/
def orderHeader : List HeaderLine := [
  .statement [] "package" [' '] "shop.orders".toList [],
  .blank [],
  .statement [] "import" [' '] "java.util.List".toList "  // of the lines".toList,
  .comment [] "/** What a customer has ordered. */".toList,
  .directives [] [⟨"Deprecated".toList, none, [' ']⟩,
    writtenCall "Schema" "\n    name = \"order\",\n    example = \"(none)\"\n"] [' '] "// draft".toList]

def orderRecord : TypeDeclaration where
  indent := []
  modifiers := [("public", [' '])]
  keyword := "record"
  gap := [' ']
  name := "Order".toList
  rest := "<T>(List<T> lines) \x7b\x7d".toList

private theorem wellFormed_orderHeader : ∀ l ∈ orderHeader, l.WellFormed := by
  simp only [orderHeader, List.forall_mem_cons, List.not_mem_nil, false_implies, implies_true,
    and_true]
  refine ⟨.statement rfl (by simp) rfl (by simp) (by decide), .blank rfl (by simp),
    .statement rfl (by simp) rfl (by simp) (by decide), .comment rfl (by decide) (by decide),
    .directives rfl ?_ (by simp) rfl (by decide) (by decide)⟩
  simp only [List.forall_mem_cons, List.not_mem_nil, false_implies, implies_true, and_true]
  exact ⟨⟨by decide, by decide, by decide, nofun, nofun, rfl⟩,
    readable_writtenCall (by decide) (by decide) (by decide) (by decide)⟩

private theorem wellFormed_orderRecord : orderRecord.WellFormed where
  indent := rfl
  modifiers := by decide
  keyword := by decide
  gap := rfl
  apart := by decide
  name := by decide
  named := by decide
  ends := by decide

/-- Below a header whose directives mention no interface, a model class and the class head of the
text have the declared name, whatever is declared, exactly when the header mentions no class and no
record. -/
theorem declaredName_iff {lines : List HeaderLine} (wf : ∀ l ∈ lines, l.WellFormed)
    (quiet : ∀ l ∈ lines, ∀ w ∈ l.written, mentions ["interface"] w.text = false) :
    (∀ d : TypeDeclaration, d.WellFormed →
      (∀ path, (Dto.ofSource? (headerText lines ++ d.text) path).map (·.name) =
        some (String.ofList d.name)) ∧
      (ClassHead.of (headerText lines ++ d.text)).name = String.ofList d.name) ↔
        mentions ["class", "record"] (headerText lines) = false := by
  constructor
  · intro named
    apply (name_ofSource?_iff lines).1
    exact fun d wfDeclaration => (named d wfDeclaration).1
  · intro unmentioned d wfDeclaration
    refine ⟨(name_ofSource?_iff lines).2 unmentioned d wfDeclaration, ?_⟩
    apply name_classHead wf _ wfDeclaration
    intro l member w member'
    exact quiet_of_not_mentions unmentioned member member' (quiet l member w member')

theorem declaredName_orderRecord :
    let source := headerText orderHeader ++ orderRecord.text
    (∀ path, (Dto.ofSource? source path).map (·.name) = some "Order") ∧
      (ClassHead.of source).name = "Order" := by
  have quiet : ∀ l ∈ orderHeader, ∀ w ∈ l.written, mentions ["interface"] w.text = false := by
    decide +kernel
  exact (declaredName_iff wellFormed_orderHeader quiet).2 (by decide +kernel) orderRecord
    wellFormed_orderRecord

def requestHeader : List HeaderLine := [.comment [] "/** Request class for users. */".toList]

theorem declaredName_ne_comment : (∀ l ∈ requestHeader, l.WellFormed) ∧
    (plainClass "CreateUser".toList).WellFormed ∧
    let source := headerText requestHeader ++ (plainClass "CreateUser".toList).text
    source = "/** Request class for users. */\nclass CreateUser\x7b\x7d".toList ∧
      (Dto.ofSource? source none).map (·.name) = some "for" ∧
      (ClassHead.of source).name = "CreateUser" := by
  refine ⟨?_, wellFormed_plainClass (by decide) (by decide), by decide, by decide +kernel,
    by decide +kernel⟩
  simp only [requestHeader, List.forall_mem_cons, List.not_mem_nil, false_implies, implies_true,
    and_true]
  exact .comment rfl (by decide) (by decide)

end ApiCollection
