import ApiCollection.Proofs.WrittenBindings

/-!
# Bound parameters

The binding of a parameter is the one that its directive says exactly when its name is read and no
text of the directive is taken for an attribute.
-/

namespace ApiCollection

open Text Binding
open Java hiding Parameter

namespace WrittenBinding

section Said

variable {w : WrittenBinding} {space : List Char}

theorem attributes_of_positional {t : List Char}
    (arguments : w.arguments = some (space, .positional t)) :
    w.attributes = [] := by
  rw [attributes, arguments]

theorem attributes_of_attributes {as : List Attribute}
    (arguments : w.arguments = some (space, .attributes as)) : w.attributes = as := by
  rw [attributes, arguments]

theorem naming?_of_positional {t : List Char}
    (arguments : w.arguments = some (space, .positional t)) :
    w.naming? = some t := by
  rw [naming?, attributes_of_positional arguments, positional?, arguments]
  rfl

private theorem naming?_of_attributes {as : List Attribute}
    (arguments : w.arguments = some (space, .attributes as)) :
    w.naming? = (textOf? .value as).or (textOf? .name as) := by
  rw [naming?, attributes_of_attributes arguments, positional?, arguments, Option.or_none]

end Said

def lead (w : WrittenBinding) (space front : List Char) : List Char :=
  '@' :: (w.qualifier ++ (w.kind.word ++ (space ++ '(' :: front)))

theorem kind_word (kind : Kind) : kind.word.all isWordChar = true ∧ kind.word ≠ [] ∧
    kind.word.all isNameChar = true ∧ '.' ∉ kind.word := by
  cases kind <;> decide

section Lead

variable {w : WrittenBinding} (wf : w.WellFormed) {space : List Char}
  (blank : space.all isAsciiBlank = true) {front : List Char} (blank' : front.all isBlank = true)

include wf

theorem not_mem_qualified {c : Char} (other : isNameChar c = false) :
    c ∉ w.qualifier ++ w.kind.word := by
  rw [List.mem_append, not_or]
  exact ⟨not_mem_of_all wf.characters other, not_mem_of_all (kind_word w.kind).2.2.1 other⟩

include blank blank'

/-- The lead has no quote, no equals sign and no second at sign. -/
theorem not_mem_lead {c : Char} (h : c ∈ ['"', '=', '@']) :
    c ∉ w.qualifier ++ (w.kind.word ++ (space ++ '(' :: front)) := by
  have others : isNameChar c = false ∧ isAsciiBlank c = false ∧ isBlank c = false ∧ c ≠ '(' := by
    simp only [List.mem_cons, List.not_mem_nil, or_false] at h
    obtain rfl | rfl | rfl := h <;> decide
  have name := not_mem_qualified wf others.1
  rw [List.mem_append, not_or] at name
  simp only [List.mem_append, List.mem_cons, not_or]
  exact ⟨name.1, name.2, not_mem_of_all blank others.2.1, others.2.2.2,
    not_mem_of_all blank' others.2.2.1⟩

theorem not_mem_whole_lead {c : Char} (h : c ∈ ['"', '=']) : c ∉ w.lead space front := by
  have other : c ≠ '@' := by
    rintro rfl
    exact absurd h (by decide)
  rw [lead, List.mem_cons, not_or]
  exact ⟨other, not_mem_lead wf blank blank' (List.mem_append_left ['@'] h)⟩

omit wf blank in
private theorem boundary_lead : isBoundary (w.lead space front).getLast? = true := by
  have split : w.lead space front =
      ('@' :: (w.qualifier ++ (w.kind.word ++ space))) ++ '(' :: front := by simp [lead]
  have boundary := @boundary_blanks '(' (by decide) front blank'
    ('@' :: (w.qualifier ++ (w.kind.word ++ space))) none
  rwa [Option.or_none, ← split] at boundary

omit wf blank blank' in
theorem afterSign_lead (rest : List Char) : afterChar? '@' (w.lead space front ++ rest) =
    some (w.qualifier ++ (w.kind.word ++ (space ++ '(' :: (front ++ rest)))) := by
  rw [afterChar?_eq_some_iff]
  simp [lead]

omit wf blank' in
/-- A name without qualifier is read whole, and the parenthesis has to follow it. -/
theorem calling?_plain (plain : w.qualifier = []) (prev : Option Char) (rest : List Char) :
    calling? prev (w.lead space front ++ rest) =
      if space = [] then some (trimStart (front ++ rest)) else none := by
  obtain ⟨letters, nonempty, -, -⟩ := kind_word w.kind
  have read : word? (w.kind.word ++ (space ++ '(' :: (front ++ rest))) =
      some (w.kind.word, space ++ '(' :: (front ++ rest)) := by
    apply run?_append letters nonempty
    cases space with
    | nil => rfl
    | cons c space =>
      have ascii := List.all_eq_true.1 blank c List.mem_cons_self
      exact (of_isBlank (isBlank_of_isAsciiBlank ascii)).1
  rw [calling?, afterSign_lead, plain, List.nil_append]
  simp only [Option.bind_eq_bind, Option.bind_some, read]
  cases space with
  | nil =>
    rw [List.nil_append, afterChar?_eq_some_iff.2 rfl, if_pos rfl]
    rfl
  | cons c space =>
    have other : c ≠ '(' := by
      rintro rfl
      exact absurd (List.all_eq_true.1 blank _ List.mem_cons_self) (by decide)
    have stuck : afterChar? '(' (c :: space ++ '(' :: (front ++ rest)) = none := by
      simp [afterChar?, other]
    rw [stuck, if_neg (List.cons_ne_nil _ _)]
    rfl

omit blank blank' in
/-- A word ends in front of the first dot of a qualifier. -/
theorem calling?_qualified (dotted : w.qualifier.getLast? = some '.') (prev : Option Char)
    (rest : List Char) : calling? prev (w.lead space front ++ rest) = none := by
  obtain ⟨qualifier, split⟩ := List.getLast?_eq_some_iff.1 dotted
  have characters := wf.characters
  rw [split, List.all_append, Bool.and_eq_true] at characters
  rw [calling?, afterSign_lead, split, List.append_assoc, List.singleton_append]
  simp only [Option.bind_eq_bind, Option.bind_some]
  rw [word?_stop (by decide)]
  cases read : word? qualifier with
  | none => rfl
  | some found =>
    obtain ⟨word, left⟩ := found
    have stuck : afterChar? '(' (left ++ '.' :: (w.kind.word ++ (space ++ '(' ::
        (front ++ rest)))) = none := by
      cases left with
      | nil => rfl
      | cons c left =>
        have member : c ∈ qualifier := by
          rw [(word?_eq_some read).1]
          simp
        have other : c ≠ '(' := by
          rintro rfl
          exact absurd (List.all_eq_true.1 characters.1 _ member) (by decide)
        simp [afterChar?, other]
    simp only [Option.map_some, Option.bind_some]
    rw [stuck]
    rfl

omit blank' in
/-- A call is read behind a name without qualifier and blanks. -/
theorem calling?_lead (prev : Option Char) (rest : List Char) :
    calling? prev (w.lead space front ++ rest) =
      if w.qualifier = [] ∧ space = [] then some (trimStart (front ++ rest)) else none := by
  obtain plain | dotted := wf.qualifier
  · rw [calling?_plain blank plain]
    simp [plain]
  · have qualified : w.qualifier ≠ [] := by
      intro plain
      rw [plain] at dotted
      cases dotted
    rw [calling?_qualified wf dotted, if_neg fun both => qualified both.1]

end Lead

def search (raw : List Char) (key : Key) : Option String :=
  find? (assigned? key.isWhole key.word) raw

theorem boundName_eq (d : Directive) (identifier : String) : boundName d identifier =
    ((search d.raw.toList .value).or ((search d.raw.toList .name).or
      (find? bare? d.raw.toList))).getD identifier := by
  change ((search d.raw.toList .value).orElse fun _ => (search d.raw.toList .name).orElse fun _ =>
    find? bare? d.raw.toList).getD identifier = _
  rw [Option.orElse_eq_or, Option.orElse_eq_or]

/-- No empty name is read. -/
theorem boundName_ne_empty {raw : List Char} {identifier : String} (h : identifier ≠ "") :
    ((search raw .value).or ((search raw .name).or (find? bare? raw))).getD identifier ≠ "" := by
  have searched (key : Key) {s : String} (found : search raw key = some s) : s ≠ "" := by
    rw [search, assigned?_eq] at found
    exact ne_empty_of_findFrom found
  cases found : (search raw .value).or ((search raw .name).or (find? bare? raw)) with
  | none => exact h
  | some s =>
    simp only [Option.or_eq_some_iff] at found
    obtain value | ⟨-, name | ⟨-, bare⟩⟩ := found
    · exact searched .value value
    · exact searched .name name
    · rw [bare?_eq] at bare
      exact ne_empty_of_findFrom bare

theorem raw_written (w : WrittenBinding) (gaps : Nat → Gaps) :
    (w.written gaps).directive.raw.toList = (w.written gaps).text := String.toList_ofList

section Read

variable {w : WrittenBinding} (wf : w.WellFormed) {gaps : Nat → Gaps}
  (blank : ∀ n, (gaps n).isBlank = true)

include wf

/-- Nothing is read of a directive without arguments. -/
theorem read_bare (none' : w.arguments = none) :
    (∀ key, search (w.written gaps).text key = none) ∧
      find? bare? (w.written gaps).text = none ∧
      find? requirement? (w.written gaps).text = none := by
  have text : (w.written gaps).text = '@' :: (w.qualifier ++ w.kind.word) := by
    simp [Written.text, Written.argumentText, written, none']
  have quotes : '"' ∉ (w.written gaps).text := by
    rw [text, List.mem_cons, not_or]
    exact ⟨by decide, not_mem_qualified wf (by decide)⟩
  have equals : '=' ∉ (w.written gaps).text := by
    rw [text, List.mem_cons, not_or]
    exact ⟨by decide, not_mem_qualified wf (by decide)⟩
  refine ⟨fun key => ?_, ?_, findFrom_requirement?_eq_none equals none⟩
  · rw [search, assigned?_eq]
    exact findFrom_unquoted key.quoteLead quotes none
  · rw [bare?_eq]
    exact findFrom_unquoted quoteLead_calling quotes none

include blank

section Positional

variable {space t : List Char} (arguments : w.arguments = some (space, .positional t))

include arguments

omit wf blank in
theorem text_positional : (w.written gaps).text = w.lead space (gaps 0).front ++
    '"' :: (t ++ '"' :: ((gaps 0).back ++ [')'])) := by
  simp [Written.text, Written.argumentText, written, arguments, lead, Arguments.written, quotedText]

omit wf arguments in
/-- Behind the string stand no quote and no equals sign. -/
theorem not_mem_closing {c : Char} (h : c ∈ ['"', '=']) : c ∉ (gaps 0).back ++ [')'] := by
  have back := (Gaps.isBlank_iff.1 (blank 0)).2.2.2
  simp only [List.mem_cons, List.not_mem_nil, or_false] at h
  rw [List.mem_append, not_or]
  obtain rfl | rfl := h <;> exact ⟨not_mem_of_all back (by decide), by decide⟩

/-- No attribute is read of a directive with a single string. -/
theorem search_positional (key : Key) : search (w.written gaps).text key = none := by
  have ascii := wf.space space _ arguments
  have front := (Gaps.isBlank_iff.1 (blank 0)).1
  have absent : '"' ∉ t := (wf.positional t (by rw [positional?, arguments])).1
  have lead' {c : Char} (h : c ∈ ['"', '=']) := not_mem_whole_lead wf ascii front h
  have unclosed := not_mem_closing blank (show '"' ∈ ['"', '='] by decide)
  have stuck : leadsOut (assigning? key.isWhole key.word) none (w.lead space (gaps 0).front) =
      false := by
    rw [Bool.eq_false_iff, Ne, leadsOut_assigning_iff key.word_ne_nil]
    rintro ⟨front', before, behind, -, -, same, -⟩
    exact lead' (show '=' ∈ ['"', '='] by decide) (by rw [same]; simp)
  rw [search, assigned?_eq, find?, text_positional arguments,
    findFrom_quote key.quoteLead (lead' (by decide)), stuck, findFrom_quote key.quoteLead absent,
    closedText?_unclosed unclosed, findFrom_unquoted key.quoteLead unclosed]
  simp

/-- A single string is read behind a plain name. -/
theorem bare_positional : find? bare? (w.written gaps).text =
    if w.qualifier = [] ∧ space = [] ∧ t ≠ [] then some (String.ofList t) else none := by
  have ascii := wf.space space _ arguments
  have front := (Gaps.isBlank_iff.1 (blank 0)).1
  have back := (Gaps.isBlank_iff.1 (blank 0)).2.2.2
  have absent : '"' ∉ t := (wf.positional t (by rw [positional?, arguments])).1
  have outside {c : Char} (h : c ∈ ['"', '=', '@']) := not_mem_lead wf ascii front h
  have unclosed := not_mem_closing blank (show '"' ∈ ['"', '='] by decide)
  have behind : trimStart ((gaps 0).front ++ '"' :: (t ++ '"' :: ((gaps 0).back ++ [')']))) =
      '"' :: (t ++ '"' :: ((gaps 0).back ++ [')'])) := trimStart_blanks front (by rfl)
  have closes : closesCall ((gaps 0).back ++ [')']) = true := by
    rw [closesCall, trimStart_blanks back (by rfl)]
    rfl
  have first := @calling?_lead w wf space ascii (gaps 0).front none
    ('"' :: (t ++ '"' :: ((gaps 0).back ++ [')'])))
  rw [bare?_eq, find?, text_positional arguments]
  by_cases plain : w.qualifier = [] ∧ space = [] ∧ t ≠ []
  · rw [if_pos plain]
    apply findFrom_of_read
    rw [quotedBehind?, first, if_pos ⟨plain.1, plain.2.1⟩, behind, Option.bind_some, closedText?,
      quoted?_append absent plain.2.2]
    simp [closes]
  · have missed : quotedBehind? calling? closesCall none (w.lead space (gaps 0).front ++
        '"' :: (t ++ '"' :: ((gaps 0).back ++ [')']))) = none := by
      rw [quotedBehind?, first]
      split
      · rename_i named
        have empty : t = [] := not_not.1 fun nonempty => plain ⟨named.1, named.2, nonempty⟩
        rw [behind, empty]
        rfl
      · rfl
    rw [if_neg plain]
    rw [lead, List.cons_append] at missed ⊢
    rw [findFrom, missed]
    dsimp only
    rw [findFrom_quote quoteLead_calling (outside (by decide)),
      leadsOut_calling (outside (by decide)), findFrom_quote quoteLead_calling absent,
      closedText?_unclosed unclosed, findFrom_unquoted quoteLead_calling unclosed]
    simp

/-- Truth values are read in a single string. -/
theorem requirement_positional :
    find? requirement? (w.written gaps).text = find? requirement? t := by
  have front := (Gaps.isBlank_iff.1 (blank 0)).1
  have lead' := not_mem_whole_lead wf (wf.space space _ arguments) front
    (show '=' ∈ ['"', '='] by decide)
  have equals := not_mem_closing blank (show '=' ∈ ['"', '='] by decide)
  rw [find?, text_positional arguments,
    findFrom_stop (fun _ _ => requirement?_quote _ _ _) (fun _ => rfl),
    findFrom_stop (fun _ _ => requirement?_quote _ _ _) (fun _ => rfl),
    findFrom_requirement?_eq_none lead', findFrom_requirement?_eq_none equals,
    findFrom_congr (fun _ _ _ => rfl) (some '"') none, Option.none_or, Option.or_none, find?]

end Positional

/-- Of a directive with attributes their texts are read, or else what separates them. -/
theorem read_attributes {space : List Char} {as : List Attribute}
    (arguments : w.arguments = some (space, .attributes as)) :
    (∀ key, (isClear key as = true →
        search (w.written gaps).text key = (found? key as).map String.ofList) ∧
      ∀ length, (∀ n, length ≤ (gaps n).front.length) → isClear key as = false →
        ∃ gap : List Char, length ≤ gap.length ∧
          search (w.written gaps).text key = some (String.ofList gap)) ∧
      ((texts as).length ≤ 1 → find? bare? (w.written gaps).text = none) ∧
      find? requirement? (w.written gaps).text = heeded? as := by
  have ascii := wf.space space _ arguments
  have front := (Gaps.isBlank_iff.1 (blank 0)).1
  have quotes : ∀ t ∈ texts as, '"' ∉ t := by
    intro t member
    exact (wf.texts t (attributes_of_attributes arguments ▸ member)).1
  have text : (w.written gaps).text = w.lead space (gaps 0).front ++ closingText gaps as := by
    simp [Written.text, Written.argumentText, written, arguments, lead, Arguments.written,
      closingText]
  have boundary := @boundary_lead w space (gaps 0).front front
  have outside {c : Char} (h : c ∈ ['"', '=', '@']) := not_mem_lead wf ascii front h
  have lead' {c : Char} (h : c ∈ ['"', '=']) := not_mem_whole_lead wf ascii front h
  refine ⟨fun key => ⟨fun clear => ?_, fun length wide misled => ?_⟩, fun single => ?_, ?_⟩
  · rw [search, find?, text]
    exact (findFrom_closing key blank (fun _ => Nat.zero_le _) quotes (lead' (by decide))
      fun _ => by rwa [Option.or_none]).1 clear
  · rw [search, find?, text]
    exact (findFrom_closing key blank wide quotes (lead' (by decide))
      fun _ => by rwa [Option.or_none]).2 misled
  · have missed : quotedBehind? calling? closesCall none
        (w.lead space (gaps 0).front ++ closingText gaps as) = none := by
      rw [quotedBehind?, calling?_lead wf ascii]
      split
      · obtain ⟨c, rest, begins, solid, other⟩ := exists_closingText gaps as
        rw [begins, Option.bind_some, trimStart_blanks front (by rw [List.head?_cons]; exact solid),
          closedText?, quoted?_of_ne other]
        rfl
      · rfl
    rw [bare?_eq, find?, text]
    rw [lead, List.cons_append] at missed ⊢
    rw [findFrom, missed]
    exact findFrom_calling_closing blank single quotes (outside (by decide)) (outside (by decide)) _
  · rw [find?, text]
    exact findFrom_requirement?_closing blank (lead' (by decide)) (fun _ => boundary) none

end Read

/-- The names of the directives that bind a parameter. -/
def bindingNames : List String := ["PathVariable", "RequestParam", "RequestBody", "RequestHeader"]

private theorem ofDirective?_of_not_mem {p : Java.Parameter} {d : Directive}
    (h : d.name ∉ bindingNames) :
    ofDirective? p d = none := by
  simp only [bindingNames, List.mem_cons, List.not_mem_nil, or_false, not_or] at h
  rw [ofDirective?]
  split <;> simp_all

structure Inert (cs : List Char) : Prop where
  stays : ParenSearch.staysOpen { depth := 1 } cs = true
  run : ParenSearch.run { depth := 1 } cs = { depth := 1 }

theorem Inert.append {xs ys : List Char} (h : Inert xs) (h' : Inert ys) : Inert (xs ++ ys) where
  stays := by rw [ParenSearch.staysOpen_append, h.stays, h.run, h'.stays]; rfl
  run := by rw [ParenSearch.run_append, h.run, h'.run]

theorem inert_of_plain {cs : List Char} (plain : ∀ c ∈ cs, c ∉ ['"', '\'', '(', ')']) :
    Inert cs := by
  refine ⟨?_, run_plain rfl plain⟩
  induction cs with
  | nil => rfl
  | cons c cs ih =>
    rw [List.forall_mem_cons] at plain
    have same : ParenSearch.step { depth := 1 } c = { depth := 1 } :=
      @run_plain { depth := 1 } rfl [c] (List.forall_mem_singleton.2 plain.1)
    have other : (c == ')') = false := by
      rw [beq_eq_false_iff_ne]
      rintro rfl
      exact plain.1 (by decide)
    rw [ParenSearch.staysOpen, same, ih plain.2, ParenSearch.closes, other]
    rfl

theorem inert_quotedText {t : List Char} (quote : '"' ∉ t) (backslash : '\\' ∉ t) :
    Inert (quotedText t) := by
  have inside : ParenSearch.staysOpen ⟨1, some '"', false⟩ (t ++ ['"']) = true ∧
      ParenSearch.run ⟨1, some '"', false⟩ (t ++ ['"']) = { depth := 1 } := by
    induction t with
    | nil => exact ⟨rfl, rfl⟩
    | cons c t ih =>
      rw [List.mem_cons, not_or] at quote backslash
      have same : ParenSearch.step ⟨1, some '"', false⟩ c = ⟨1, some '"', false⟩ := by
        simp [ParenSearch.step, Ne.symm quote.1, Ne.symm backslash.1]
      obtain ⟨stays, ends⟩ := ih quote.2 backslash.2
      rw [List.cons_append, ParenSearch.staysOpen, ParenSearch.run_cons, same, stays, ends]
      exact ⟨rfl, rfl⟩
  exact ⟨inside.1, inside.2⟩

theorem inert_blanks {blanks : List Char} (h : blanks.all isBlank = true) : Inert blanks := by
  apply inert_of_plain
  intro c member signs
  have blank := List.all_eq_true.1 h c member
  simp only [List.mem_cons, List.not_mem_nil, or_false] at signs
  obtain rfl | rfl | rfl | rfl := signs <;> exact absurd blank (by decide)

theorem inert_assignmentText {g : Gaps} (blank : g.isBlank = true) {word : List Char}
    (h : Inert word) : Inert (assignmentText g word) := by
  obtain ⟨-, before, behind, -⟩ := Gaps.isBlank_iff.1 blank
  have sign : Inert ['='] := ⟨rfl, rfl⟩
  exact h.append ((inert_blanks before).append (sign.append (inert_blanks behind)))

private theorem inert_attributesText {gaps : Nat → Gaps} (blank : ∀ n, (gaps n).isBlank = true)
    {as : List Attribute} (quotes : ∀ t ∈ texts as, '"' ∉ t ∧ '\\' ∉ t) :
    Inert (attributesText gaps as) := by
  induction as generalizing gaps with
  | nil => exact ⟨rfl, rfl⟩
  | cons a rest ih =>
    have back := inert_blanks (Gaps.isBlank_iff.1 (blank 0)).2.2.2
    have behind : Inert (separator (gaps 1) rest) := by
      have comma : Inert [','] := ⟨rfl, rfl⟩
      rw [separator]
      split
      · exact ⟨rfl, rfl⟩
      · exact comma.append (inert_blanks (Gaps.isBlank_iff.1 (blank 1)).1)
    cases a with
    | text key t =>
      rw [texts, List.forall_mem_cons] at quotes
      have word : Inert key.word := by cases key <;> exact ⟨rfl, rfl⟩
      exact ((inert_assignmentText (blank 0) word).append
        ((inert_quotedText quotes.1.1 quotes.1.2).append back)).append
          (behind.append (ih (fun n => blank (n + 1)) quotes.2))
    | required holds =>
      have word : Inert "required".toList := ⟨rfl, rfl⟩
      have truth : Inert (truthText holds) := by cases holds <;> exact ⟨rfl, rfl⟩
      exact ((inert_assignmentText (blank 0) word).append (truth.append back)).append
        (behind.append (ih (fun n => blank (n + 1)) quotes))

section Binding

variable {w : WrittenBinding} (wf : w.WellFormed) {gaps : Nat → Gaps}
  (blank : ∀ n, (gaps n).isBlank = true)

include wf

theorem lastPiece_written : lastPiece '.' (w.qualifier ++ w.kind.word) = w.kind.word := by
  have plain := lastPiece_of_not_mem (kind_word w.kind).2.2.2
  rcases wf.qualifier with none' | dotted
  · rw [none', List.nil_append, plain]
  · obtain ⟨qualifier, split⟩ := List.getLast?_eq_some_iff.1 dotted
    rw [split, List.append_assoc, List.singleton_append, lastPiece_append, plain]

include blank

private theorem legible_written : (w.written gaps).Legible where
  characters := by
    change (w.qualifier ++ w.kind.word).all isNameChar = true
    rw [List.all_append, wf.characters, (kind_word w.kind).2.2.1]
    rfl
  named := by
    change lastPiece '.' (w.qualifier ++ w.kind.word) ≠ []
    rw [lastPiece_written wf]
    exact (kind_word w.kind).2.1
  declares := by
    change lastPiece '.' (w.qualifier ++ w.kind.word) ≠ _
    rw [lastPiece_written wf]
    cases w.kind <;> decide
  space space inside arguments := by
    obtain ⟨⟨space', as⟩, found, same⟩ := Option.map_eq_some_iff.1 arguments
    obtain ⟨rfl, -⟩ := Prod.mk.inj same
    exact wf.space space' as found
  enclosed space inside arguments := by
    obtain ⟨⟨space', as⟩, found, same⟩ := Option.map_eq_some_iff.1 arguments
    obtain ⟨-, rfl⟩ := Prod.mk.inj same
    have front := inert_blanks (Gaps.isBlank_iff.1 (blank 0)).1
    have back := inert_blanks (Gaps.isBlank_iff.1 (blank 0)).2.2.2
    have inert : Inert (as.written gaps) := by
      cases as with
      | positional t =>
        have quotes := wf.positional t (by rw [positional?, found])
        exact front.append ((inert_quotedText quotes.1 quotes.2).append back)
      | attributes as =>
        have quotes := wf.texts
        rw [attributes_of_attributes found] at quotes
        exact front.append (inert_attributesText blank quotes)
    rw [enclosed_iff, inert.run]
    exact ⟨inert.stays, rfl⟩

/-- A parameter is bound as its first binding directive says when that is read again. -/
theorem of?_written {p : Java.Parameter} {before : List Directive} {rest : List Char}
    (others : ∀ d ∈ before, d.name ∉ bindingNames)
    (apart : w.arguments = none → rest.head?.any isNameChar = false ∧ Bare rest)
    (directives : p.directives = before ++ directives ((w.written gaps).text ++ rest)) :
    Binding.of? p = some {
      name := boundName (w.written gaps).directive p.name
      type := p.type
      location := w.kind.location
      required := w.kind == .path || (find? requirement? (w.written gaps).text).getD true
      default := if w.kind == .path then none else search (w.written gaps).text .default } := by
  have apart' : (w.written gaps).arguments = none →
      rest.head?.any isNameChar = false ∧ Bare rest :=
    fun none' => apart (Option.map_eq_none_iff.1 none')
  have skipped : before.findSome? (ofDirective? p) = none :=
    List.findSome?_eq_none_iff.2 fun d member => ofDirective?_of_not_mem (others d member)
  have name : (w.written gaps).directive.name = String.ofList w.kind.word := by
    rw [Written.directive]
    exact congrArg String.ofList (lastPiece_written wf)
  rw [of?, directives, directives_written (legible_written wf blank) apart', List.findSome?_append,
    skipped, Option.none_or, List.findSome?_cons, ofDirective?, name]
  have required : isRequired (w.written gaps).directive =
      (find? requirement? (w.written gaps).text).getD true := by
    rw [isRequired, raw_written]
  have default : defaultOf (w.written gaps).directive = search (w.written gaps).text .default := by
    rw [defaultOf, raw_written]
    rfl
  cases w.kind with
  | path => rfl
  | query =>
    rw [← required, ← default]
    rfl
  | header =>
    rw [← required, ← default]
    rfl

end Binding

theorem textOf?_eq_none {key : Key} {as : List Attribute}
    (absent : some key ∉ as.map Attribute.key?) :
    textOf? key as = none := by
  induction as with
  | nil => rfl
  | cons a rest ih =>
    rw [List.map_cons, List.mem_cons, not_or] at absent
    cases a with
    | text k t =>
      have other : k ≠ key := fun same => absent.1 (congrArg some same.symm)
      rw [textOf?, if_neg other, ih absent.2]
    | required holds => exact ih absent.2

private theorem mem_texts {key : Key} {as : List Attribute} {t : List Char}
    (h : textOf? key as = some t) :
    t ∈ texts as := by
  induction as with
  | nil => cases h
  | cons a rest ih =>
    cases a with
    | text k t' =>
      rw [textOf?] at h
      split at h
      · obtain rfl := Option.some.inj h
        exact List.mem_cons_self
      · exact List.mem_cons_of_mem t' (ih h)
    | required holds => exact ih h

theorem filter_nonempty {t : List Char} (h : t ≠ []) :
    (some t).filter (fun t => !t.isEmpty) = some t := by
  simp [Option.filter, h]

/-- The text of an attribute is found when it is not empty. -/
theorem found?_eq {as : List Attribute} (distinct : (as.map Attribute.key?).Nodup) (key : Key) :
    found? key as = (textOf? key as).filter fun t => !t.isEmpty := by
  induction as with
  | nil => rfl
  | cons a rest ih =>
    rw [List.map_cons, List.nodup_cons] at distinct
    cases a with
    | text k t =>
      rw [found?, textOf?, ih distinct.2]
      by_cases same : k = key
      · subst same
        rw [if_pos rfl]
        by_cases empty : t = []
        · rw [if_neg (by simp [empty]), textOf?_eq_none distinct.1, empty]
          rfl
        · rw [if_pos ⟨rfl, empty⟩, filter_nonempty empty]
      · rw [if_neg fun both => same both.1, if_neg same]
    | required holds => exact ih distinct.2

private theorem texts_eq_nil {as : List Attribute} (none' : ∀ key, textOf? key as = none) :
    texts as = [] := by
  induction as with
  | nil => rfl
  | cons a rest ih =>
    cases a with
    | text k t =>
      have hit := none' k
      rw [textOf?, if_pos rfl] at hit
      cases hit
    | required holds => exact ih none'

/-- At most one text stands in attributes that give no name. -/
theorem length_texts_le {as : List Attribute} (distinct : (as.map Attribute.key?).Nodup)
    (value : textOf? .value as = none) (name : textOf? .name as = none) : (texts as).length ≤ 1 := by
  induction as with
  | nil => exact Nat.zero_le 1
  | cons a rest ih =>
    rw [List.map_cons, List.nodup_cons] at distinct
    cases a with
    | text k t =>
      have other (key : Key) (h : textOf? key (.text k t :: rest) = none) :
          k ≠ key ∧ textOf? key rest = none := by
        rw [textOf?] at h
        split at h
        · cases h
        · rename_i ne
          exact ⟨ne, h⟩
      have behind : texts rest = [] := by
        apply texts_eq_nil
        intro key
        cases key with
        | value => exact (other .value value).2
        | name => exact (other .name name).2
        | default =>
          have default : k = .default := by
            cases k with
            | value => exact absurd rfl (other .value value).1
            | name => exact absurd rfl (other .name name).1
            | default => rfl
          rw [default] at distinct
          exact textOf?_eq_none distinct.1
      rw [texts, behind]
      rfl
    | required holds => exact ih distinct.2 value name

section Names

variable {w : WrittenBinding} (wf : w.WellFormed) {gaps : Nat → Gaps}
  (blank : ∀ n, (gaps n).isBlank = true)

include wf blank

/-- A name that is read is the one that the directive says. -/
theorem boundName_of_isNamed (named : w.isNamed = true) (identifier : String) :
    boundName (w.written gaps).directive identifier = w.naming?.elim identifier String.ofList := by
  rw [boundName_eq, raw_written]
  rw [isNamed] at named
  cases arguments : w.arguments with
  | none =>
    obtain ⟨searches, bare, -⟩ := @read_bare w wf gaps arguments
    have none' : w.naming? = none := by simp [naming?, attributes, positional?, arguments, textOf?]
    rw [searches, searches, bare, none']
    rfl
  | some found =>
    obtain ⟨space, arguments'⟩ := found
    rw [arguments] at named
    cases arguments' with
    | positional t =>
      have searches := search_positional wf blank arguments
      have bare := bare_positional wf blank arguments
      have plain : w.qualifier = [] ∧ space = [] ∧ t ≠ [] := by simpa [and_assoc] using named
      rw [searches, searches, bare, if_pos plain, naming?_of_positional arguments]
      rfl
    | attributes as =>
      obtain ⟨searches, bare, -⟩ := read_attributes wf blank arguments
      have distinct := attributes_of_attributes arguments ▸ wf.distinct
      simp only [Bool.and_eq_true, bne_iff_ne, Bool.or_eq_true] at named
      obtain ⟨⟨nonempty, clear⟩, clear'⟩ := named
      rw [(searches .value).1 clear, found?_eq distinct]
      rw [naming?_of_attributes arguments] at nonempty ⊢
      cases value : textOf? .value as with
      | some t =>
        rw [value, Option.some_or] at nonempty
        rw [filter_nonempty fun empty => nonempty (congrArg some empty)]
        rfl
      | none =>
        rw [value, Option.none_or] at nonempty
        rw [value] at clear'
        rw [(searches .name).1 (clear'.resolve_left (by simp)), found?_eq distinct]
        cases name : textOf? .name as with
        | some t =>
          rw [filter_nonempty fun empty => nonempty (by rw [name, empty])]
          rfl
        | none =>
          rw [bare (length_texts_le distinct value name)]
          rfl

/-- A name that is not read is missed where the blanks are wide and the identifier is another
name. -/
theorem isNamed_of_boundName {identifier : List Char} {length : Nat}
    (wide : ∀ n, length ≤ (gaps n).front.length) (nonempty : identifier ≠ [])
    (other : w.naming? ≠ some identifier) (short : (w.naming?.getD identifier).length < length)
    (same : boundName (w.written gaps).directive (String.ofList identifier) =
      w.naming?.elim (String.ofList identifier) String.ofList) : w.isNamed = true := by
  have same' : boundName (w.written gaps).directive (String.ofList identifier) =
      String.ofList (w.naming?.getD identifier) := by
    rw [same]
    cases w.naming? <;> rfl
  rw [boundName_eq, raw_written] at same'
  rw [isNamed]
  cases arguments : w.arguments with
  | none => rfl
  | some found =>
    obtain ⟨space, arguments'⟩ := found
    cases arguments' with
    | positional t =>
      have searches := search_positional wf blank arguments
      have bare := bare_positional wf blank arguments
      have some' := naming?_of_positional arguments
      rw [searches, searches, bare, some'] at same'
      by_cases plain : w.qualifier = [] ∧ space = [] ∧ t ≠ []
      · simpa [and_assoc] using plain
      · rw [if_neg plain] at same'
        rw [some'] at other
        exact absurd (congrArg some (String.ofList_injective same').symm) other
    | attributes as =>
      obtain ⟨searches, -, -⟩ := read_attributes wf blank arguments
      have distinct := attributes_of_attributes arguments ▸ wf.distinct
      -- what separates two texts is too long for the name
      have unmisled {name : String} {gap : List Char} (long : length ≤ gap.length)
          (read : name = String.ofList gap)
          (same : name = String.ofList (w.naming?.getD identifier)) : False := by
        rw [read] at same
        rw [← String.ofList_injective same] at short
        omega
      have clear : isClear .value as = true := by
        by_contra misled
        rw [Bool.not_eq_true] at misled
        obtain ⟨gap, long, read⟩ := (searches .value).2 length wide misled
        rw [read] at same'
        exact unmisled long rfl same'
      have clear' : (textOf? .value as).isSome = true ∨ isClear .name as = true := by
        by_contra neither
        rw [not_or, Bool.not_eq_true, Bool.not_eq_true, Option.isSome_eq_false_iff,
          Option.isNone_iff_eq_none] at neither
        obtain ⟨gap, long, read⟩ := (searches .name).2 length wide neither.2
        rw [(searches .value).1 clear, found?_eq distinct, neither.1, read] at same'
        exact unmisled long rfl same'
      have named : w.naming? ≠ some [] := by
        intro empty
        rw [empty] at same'
        exact boundName_ne_empty (fun empty => nonempty (String.ofList_injective empty)) same'
      simp [named, clear, clear']

end Names

section Details

variable {w : WrittenBinding} (wf : w.WellFormed) {gaps : Nat → Gaps}
  (blank : ∀ n, (gaps n).isBlank = true)

include wf blank

/-- What is read besides the name is what the directive says. -/
theorem details_of_isDetailed (detailed : w.isDetailed = true) :
    (find? requirement? (w.written gaps).text).getD true = !w.attributes.contains (.required false) ∧
      search (w.written gaps).text .default =
        ((textOf? .default w.attributes).filter fun t => !t.isEmpty).map String.ofList := by
  rw [isDetailed] at detailed
  cases arguments : w.arguments with
  | none =>
    obtain ⟨searches, -, requirement⟩ := @read_bare w wf gaps arguments
    have nothing : w.attributes = [] := by rw [attributes, arguments]
    rw [searches, requirement, nothing]
    exact ⟨rfl, rfl⟩
  | some found =>
    obtain ⟨space, arguments'⟩ := found
    rw [arguments] at detailed
    cases arguments' with
    | positional t =>
      have searches := search_positional wf blank arguments
      have requirement := requirement_positional wf blank arguments
      rw [searches, requirement, attributes_of_positional arguments]
      exact ⟨detailed, rfl⟩
    | attributes as =>
      obtain ⟨searches, -, requirement⟩ := read_attributes wf blank arguments
      have same := attributes_of_attributes arguments
      rw [Bool.and_eq_true, beq_iff_eq] at detailed
      rw [requirement, (searches .default).1 detailed.1, found?_eq (same ▸ wf.distinct), same]
      exact ⟨detailed.2, rfl⟩

/-- What is not read besides the name is missed where the blanks are wide. -/
theorem isDetailed_of_details {length : Nat} (wide : ∀ n, length ≤ (gaps n).front.length)
    (short : ∀ t ∈ texts w.attributes, t.length < length)
    (required : (find? requirement? (w.written gaps).text).getD true =
      !w.attributes.contains (.required false))
    (default : search (w.written gaps).text .default =
      ((textOf? .default w.attributes).filter fun t => !t.isEmpty).map String.ofList) :
    w.isDetailed = true := by
  rw [isDetailed]
  cases arguments : w.arguments with
  | none => rfl
  | some found =>
    obtain ⟨space, arguments'⟩ := found
    cases arguments' with
    | positional t =>
      have requirement := requirement_positional wf blank arguments
      rw [requirement, attributes_of_positional arguments] at required
      exact required
    | attributes as =>
      obtain ⟨searches, -, requirement⟩ := read_attributes wf blank arguments
      have same := attributes_of_attributes arguments
      rw [same] at required default short
      rw [requirement] at required
      rw [Bool.and_eq_true, beq_iff_eq]
      refine ⟨?_, required⟩
      by_contra misled
      rw [Bool.not_eq_true] at misled
      obtain ⟨gap, long, read⟩ := (searches .default).2 length wide misled
      rw [read] at default
      obtain ⟨t, found, eq⟩ := Option.map_eq_some_iff.1 default.symm
      have member := mem_texts (Option.filter_eq_some_iff.1 found).1
      rw [String.ofList_injective eq] at member
      exact absurd (short gap member) (Nat.not_lt.2 long)

end Details

/-- Whether the first binding directive of a parameter is a given one, with some blanks. -/
def IsFirst (w : WrittenBinding) (gaps : Nat → Gaps) (p : Java.Parameter) : Prop :=
  ∃ before rest, (∀ d ∈ before, d.name ∉ bindingNames) ∧
    (w.arguments = none → rest.head?.any isNameChar = false ∧ Bare rest) ∧
    p.directives = before ++ directives ((w.written gaps).text ++ rest)

/-- All parameters with a binding directive are bound as it says, whatever blanks it is written with,
exactly when it is heeded. -/
theorem of?_eq_meaning_iff {w : WrittenBinding} (wf : w.WellFormed) :
    (∀ gaps : Nat → Gaps, (∀ n, (gaps n).isBlank = true) →
      ∀ p : Java.Parameter, w.IsFirst gaps p → Binding.of? p = some (w.meaning p)) ↔
    w.isHeeded = true := by
  rw [isHeeded, Bool.and_eq_true, Bool.or_eq_true, beq_iff_eq]
  constructor
  · intro bound
    -- blanks that are wider than all texts, and an identifier that is not the name
    obtain ⟨length, short, short'⟩ : ∃ length, (∀ t ∈ texts w.attributes, t.length < length) ∧
        (w.naming?.getD []).length + 1 < length := by
      refine ⟨(texts w.attributes).flatten.length + (w.naming?.getD []).length + 2, ?_, by omega⟩
      intro t member
      have := (List.sublist_flatten_of_mem member).length_le
      omega
    have blank : ∀ _ : Nat, (Gaps.mk (List.replicate length ' ') [] [] []).isBlank = true := by
      simp [Gaps.isBlank, isBlank]
    have wide : ∀ _ : Nat, length ≤ (Gaps.mk (List.replicate length ' ') [] [] []).front.length := by
      simp
    generalize Gaps.mk (List.replicate length ' ') [] [] [] = g at blank wide
    have first : w.IsFirst (fun _ => g) ⟨String.ofList ('x' :: w.naming?.getD []), "",
        directives (w.written fun _ => g).text⟩ :=
      ⟨[], [], List.forall_mem_nil _, fun _ => ⟨rfl, (Option.some_ne_none _).symm⟩,
        by rw [List.append_nil, List.nil_append]⟩
    have read := bound (fun _ => g) blank _ first
    obtain ⟨before, rest, others, apart, same⟩ := first
    rw [of?_written wf blank others apart same, Option.some.injEq, meaning, Binding.mk.injEq] at read
    obtain ⟨name, -, -, required, default⟩ := read
    constructor
    · refine isNamed_of_boundName wf blank wide (List.cons_ne_nil _ _) ?_ ?_ name
      · cases w.naming? with
        | none => exact (Option.some_ne_none _).symm
        | some t =>
          intro same
          have lengths := congrArg List.length (Option.some.inj same)
          rw [Option.getD_some, List.length_cons] at lengths
          omega
      · cases naming : w.naming? with
        | none =>
          rw [naming] at short'
          simpa using short'
        | some t =>
          rw [naming, Option.getD_some] at short'
          rw [Option.getD_some]
          omega
    · by_cases path : w.kind = .path
      · exact .inl path
      · have other : (w.kind == .path) = false := beq_eq_false_iff_ne.2 path
        rw [other, Bool.false_or, Bool.false_or] at required
        rw [other] at default
        exact .inr (isDetailed_of_details wf blank wide short required default)
  · rintro ⟨named, details⟩ gaps blank p ⟨before, rest, others, apart, same⟩
    rw [of?_written wf blank others apart same, boundName_of_isNamed wf blank named, meaning,
      Option.some.injEq, Binding.mk.injEq]
    rcases details with path | detailed
    · rw [path]
      exact ⟨rfl, rfl, rfl, rfl, rfl⟩
    · obtain ⟨required, default⟩ := details_of_isDetailed wf blank detailed
      rw [required, default]
      exact ⟨rfl, rfl, rfl, rfl, rfl⟩

/-- A qualified directive with three attributes. -/
def sizeBinding : WrittenBinding where
  qualifier := "annotation.".toList
  kind := .query
  arguments := some ([], .attributes
    [.required false, .text .default "20".toList, .text .name "size".toList])

/-- A blank behind every comma and on both sides of every equals sign. -/
def spaced : Nat → Gaps
  | 0 => ⟨[], [' '], [' '], []⟩
  | _ => ⟨[' '], [' '], [' '], []⟩

private theorem isBlank_spaced (n : Nat) : (spaced n).isBlank = true := by
  cases n <;> rfl

private theorem wellFormed_sizeBinding : sizeBinding.WellFormed where
  characters := by decide
  qualifier := .inr rfl
  space space arguments h := by
    obtain ⟨rfl, -⟩ := Prod.mk.inj (Option.some.inj h)
    rfl
  positional := nofun
  texts := by decide
  distinct := by decide

def sizeParameter : Java.Parameter where
  name := "count"
  type := "int"
  directives := directives
    "@annotation.RequestParam(required = false, defaultValue = \"20\", name = \"size\") int count".toList

theorem of?_sizeParameter : sizeBinding.isHeeded = true ∧
    Binding.of? sizeParameter = some ⟨"size", "int", .query, false, some "20"⟩ :=
  ⟨by decide +kernel, (of?_eq_meaning_iff wellFormed_sizeBinding).2 (by decide +kernel) spaced
    isBlank_spaced sizeParameter ⟨[], " int count".toList, nofun, nofun, rfl⟩⟩

/-- A qualified directive with a single string. -/
def userBinding : WrittenBinding where
  qualifier := "org.springframework.web.bind.annotation.".toList
  kind := .path
  arguments := some ([], .positional "userId".toList)

private theorem wellFormed_userBinding : userBinding.WellFormed where
  characters := by decide
  qualifier := .inr rfl
  space space arguments h := by
    obtain ⟨rfl, -⟩ := Prod.mk.inj (Option.some.inj h)
    rfl
  positional t h := by
    obtain rfl := Option.some.inj h
    decide
  texts := nofun
  distinct := .nil

/-- The name of a parameter is the identifier where the directive says another one. -/
theorem of?_ne_userBinding : userBinding.WellFormed ∧ userBinding.isHeeded = false ∧
    (parameters ((userBinding.written spaced).text ++ " Long id".toList)).map
        (fun p => (userBinding.meaning p, Binding.of? p)) =
      [(⟨"userId", "Long", .path, true, none⟩, some ⟨"id", "Long", .path, true, none⟩)] :=
  ⟨wellFormed_userBinding, by decide +kernel, by decide +kernel⟩

end WrittenBinding

end ApiCollection
