import ApiCollection.Proofs.ParenStates

/-!
# What the sweep passes over

A sweep for method heads passes over blanks, over calm texts in front of a stop, and over directives.
-/

namespace ApiCollection.Java

open Text

def headsFrom (source : List Char) (prev : Option Char) (cs : List Char) : List MethodHead :=
  (candidates prev cs).filterMap fun (prev, c) => c.head? source prev

variable {source : List Char}

/-- What closes a parenthesis does not depend on the text behind it. -/
theorem ParenSearch.close?_append {s : ParenSearch} {cs inside rest : List Char}
    (h : s.close? cs = some (inside, rest)) (more : List Char) :
    s.close? (cs ++ more) = some (inside, rest ++ more) := by
  obtain ⟨stays, closes⟩ := ParenSearch.staysOpen_of_close? h
  rw [ParenSearch.eq_append_of_close? h, List.append_assoc, List.cons_append,
    ParenSearch.close?_staysOpen stays, ParenSearch.close?_cons, if_pos closes]
  exact congrArg (fun inside => some (inside, rest ++ more)) (List.append_nil inside)

theorem insideParens?_of_enclosed {cs : List Char} (h : Enclosed cs) (rest : List Char) :
    insideParens? (cs ++ ')' :: rest) = some (cs, rest) := by
  have whole := ParenSearch.close?_append h rest
  rw [List.append_assoc] at whole
  exact whole

/-- What stands in front of a stop decides whether a head is continued. -/
theorem continuesHead_stop {b : Char} (stop : isStop b = true) {cs : List Char}
    (h : allBlank cs = false) (rest : List Char) :
    continuesHead (cs ++ b :: rest) = continuesHead cs := by
  have other : b ∉ "throws".toList := by
    obtain rfl | rfl | rfl | rfl := isStop_cases stop <;> decide
  rw [continuesHead, continuesHead, trimStart_stop stop]
  cases trimmed : trimStart cs with
  | nil => exact absurd trimmed (trimStart_ne_nil h)
  | cons c t =>
    have throws : startsWith "throws".toList (c :: t ++ b :: rest) =
        startsWith "throws".toList (c :: t) := by
      rw [startsWith, startsWith, after?_stop other, Option.isSome_map]
    have first (d : Char) : startsWith [d] (c :: t ++ b :: rest) = startsWith [d] (c :: t) := by
      simp only [startsWith, List.cons_append, after?]
      split <;> rfl
    rw [throws, first, first]

theorem head?_of_insideWord {c : Candidate} {prev : Option Char}
    (h : insideWord prev = true ∨ c.isStatement = true) : c.head? source prev = none := by
  have no : (!insideWord prev && !c.isStatement) = false := by
    obtain inside | statement := h
    · simp [inside]
    · simp [statement]
  rw [Candidate.head?, no]
  rfl

theorem head?_of_not_continuesHead {c : Candidate} {inside rest : List Char}
    (closed : insideParens? c.behind = some (inside, rest)) (ends : continuesHead rest = false)
    (prev : Option Char) : c.head? source prev = none := by
  rw [Candidate.head?, closed]
  cases guarded : (!insideWord prev && !c.isStatement) with
  | false => rfl
  | true => simp [guard, ends]

theorem of_isDismissed {c : Candidate} (h : c.isDismissed = true) : ∃ inside rest,
    insideParens? c.behind = some (inside, rest) ∧ allBlank rest = false ∧
      continuesHead rest = false := by
  rw [Candidate.isDismissed, Option.any_eq_true] at h
  obtain ⟨⟨inside, rest⟩, closed, no⟩ := h
  rw [Bool.and_eq_true, Bool.not_eq_true', Bool.not_eq_true'] at no
  exact ⟨inside, rest, closed, no⟩

/-- A calm text in front of a stop is passed over. -/
theorem headsFrom_calm {b : Char} (stop : isStop b = true) {prev : Option Char} {cs : List Char}
    (calm : Calm prev cs) (rest : List Char) :
    headsFrom source prev (cs ++ b :: rest) = headsFrom source (some b) rest := by
  have none' : (extended (b :: rest) (candidates prev cs)).filterMap
      (fun (prev, c) => c.head? source prev) = [] := by
    rw [List.filterMap_eq_nil_iff]
    intro x hx
    obtain ⟨⟨p, c⟩, member, rfl⟩ := List.mem_map.1 hx
    obtain inside | statement | dismissed := calm (p, c) member
    · exact head?_of_insideWord (Or.inl inside)
    · exact head?_of_insideWord (Or.inr ((Candidate.isStatement_extend _ c).trans statement))
    · obtain ⟨inside, behind, closed, blank, ends⟩ := of_isDismissed dismissed
      have closed' : insideParens? (c.extend (b :: rest)).behind =
          some (inside, behind ++ b :: rest) := ParenSearch.close?_append closed (b :: rest)
      refine head?_of_not_continuesHead closed' ?_ p
      rw [continuesHead_stop stop blank, ends]
  rw [headsFrom, candidates_stop stop, List.filterMap_append, none', List.nil_append]
  rfl

theorem headsFrom_calm_end {prev : Option Char} {cs : List Char} (calm : Calm prev cs) :
    headsFrom source prev cs = [] := by
  rw [headsFrom, List.filterMap_eq_nil_iff]
  intro x hx
  obtain inside | statement | dismissed := calm x hx
  · exact head?_of_insideWord (Or.inl inside)
  · exact head?_of_insideWord (Or.inr statement)
  · obtain ⟨inside, behind, closed, -, ends⟩ := of_isDismissed dismissed
    exact head?_of_not_continuesHead closed ends x.1

theorem headsFrom_cons {c : Char} (undotted : isDotted c = false) (angle : c ≠ '<')
    (prev : Option Char) (cs : List Char) :
    headsFrom source prev (c :: cs) = headsFrom source (some c) cs := by
  rw [headsFrom, candidates_cons_none]
  · rfl
  · refine candidate?_of_head? undotted ?_
    intro same
    exact angle (Option.some.inj same)

theorem headsFrom_append_of_none {s r : List Char} (prev : Option Char)
    (none' : ∀ back, back <:+ s → back ≠ [] → candidate? (back ++ r) = none) :
    headsFrom source prev (s ++ r) = headsFrom source (lastBehind prev s) r := by
  rw [headsFrom, candidates_append_of_none prev none']
  rfl

theorem headsFrom_blanks {blanks : List Char} (h : blanks.all isBlank = true) (prev : Option Char)
    (rest : List Char) : headsFrom source prev (blanks ++ rest) =
      headsFrom source (lastBehind prev blanks) rest := by
  refine headsFrom_append_of_none prev fun back suffix nonempty => ?_
  cases back with
  | nil => exact absurd rfl nonempty
  | cons c back =>
    have blank : isBlank c = true :=
      List.all_eq_true.1 h c (suffix.subset List.mem_cons_self)
    refine candidate?_of_head? (isDotted_of_isBlank blank) ?_
    intro same
    rw [List.cons_append, List.head?_cons, Option.some.injEq] at same
    rw [same] at blank
    exact absurd blank (by decide)

/-- What may follow the name of a directive and its blanks: no bracket, and no word with a
parenthesis behind it. -/
structure Follows (rest : List Char) : Prop where
  blank : rest.head?.any isBlank = false
  angle : rest.head? ≠ some '<'
  bracket : rest.head? ≠ some '['
  word : ∀ w r, word? rest = some (w, r) → afterChar? '(' (trimStart r) = none

private theorem typeEnds_eq_self {blanks rest : List Char} (h : blanks.all isBlank = true)
    (follows : Follows rest) : typeEnds (blanks ++ rest) = [blanks ++ rest] := by
  rw [typeEnds, trimStart_blanks h follows.blank, afterChar?_of_head? follows.angle]

theorem after?_brackets {rest : List Char} (h : rest.head? ≠ some '[') :
    after? "[]".toList rest = none := by
  cases rest with
  | nil => rfl
  | cons c rest =>
    have ne : ¬('[' == c) = true := by
      intro same
      exact h (by rw [← beq_iff_eq.1 same]; rfl)
    exact if_neg ne

private theorem skipArraySuffixes_eq_self {blanks rest : List Char} (h : blanks.all isBlank = true)
    (follows : Follows rest) : skipArraySuffixes (blanks ++ rest) = blanks ++ rest := by
  rw [skipArraySuffixes, afterArraySuffix?, trimStart_blanks h follows.blank,
    after?_brackets follows.bracket]

section DirectiveName

variable {s blanks rest : List Char} (dotted : s.all isDotted = true) (nonempty : s ≠ [])
  (h : blanks.all isBlank = true) (follows : Follows rest)
  (undotted : blanks = [] → rest.head?.any isDotted = false)

include dotted nonempty h follows undotted

/-- The name of a directive is no return type. -/
theorem behindModifiers?_directiveName (start : List Char) :
    behindModifiers? start (s ++ (blanks ++ rest)) = none := by
  have noName : nameBehind? start (s ++ (blanks ++ rest)) (blanks ++ rest) = none := by
    rw [nameBehind?, skipArraySuffixes_eq_self h follows]
    by_cases empty : blanks = []
    · have noBlank : afterBlanks? (blanks ++ rest) = none := by
        rw [empty, List.nil_append, afterBlanks?, if_neg]
        rw [Bool.not_eq_true]
        exact follows.blank
      simp [noBlank]
    · simp only [afterBlanks?_eq_some h empty follows.blank, Option.bind_eq_bind, Option.bind_some]
      cases word : word? rest with
      | none => rfl
      | some found =>
        obtain ⟨w, r⟩ := found
        simp [follows.word w r word]
  have ends := head?_any_blanks h (fun _ => isDotted_of_isBlank) undotted
  rw [behindModifiers?_name dotted nonempty ends, typeEnds_eq_self h follows, List.findSome?_cons,
    noName]
  rfl

/-- No candidate begins in the name of a directive that is no modifier. -/
theorem candidate?_directiveName (modifier : ∀ word ∈ methodModifiers, s ≠ word.toList) :
    candidate? (s ++ (blanks ++ rest)) = none := by
  have noKeyword : keyword? methodModifiers (s ++ (blanks ++ rest)) = none := by
    cases found : keyword? methodModifiers (s ++ (blanks ++ rest)) with
    | none => rfl
    | some pair =>
      have ends := head?_any_blanks h (fun _ => isDotted_of_isBlank) undotted
      obtain ⟨member, same, -⟩ := of_keyword?_name dotted nonempty ends found
      exact absurd same.symm (modifier _ member)
  rw [candidate?_of_keyword?_eq_none noKeyword,
    behindModifiers?_directiveName dotted nonempty h follows undotted]

/-- No candidate begins in the name of a directive in front of something that is no type. -/
theorem candidate?_directiveName_of_head? (typeless : rest.head?.any isDotted = false) :
    candidate? (s ++ (blanks ++ rest)) = none := by
  have noType (start : List Char) :
      behindModifiers? start (s ++ (blanks ++ rest)) = none :=
    behindModifiers?_directiveName dotted nonempty h follows undotted start
  cases found : keyword? methodModifiers (s ++ (blanks ++ rest)) with
  | none => rw [candidate?_of_keyword?_eq_none found, noType]
  | some pair =>
    obtain ⟨word, x⟩ := pair
    have ends := head?_any_blanks h (fun _ => isDotted_of_isBlank) undotted
    obtain ⟨-, -, blank⟩ := of_keyword?_name dotted nonempty ends found
    have same : x = rest := by
      rw [afterBlanks?] at blank
      split at blank
      · rw [← Option.some.inj blank, trimStart_blanks h follows.blank]
      · cases blank
    subst same
    have shorter : x.length < (s ++ (blanks ++ x)).length := by
      have := List.length_pos_iff.2 nonempty
      simp only [List.length_append]
      omega
    rw [candidate?_keyword found shorter, noType,
      modifierRuns_of_none (keyword?_of_head? typeless), List.findSome?_cons,
      behindModifiers?_of_head? typeless follows.angle]
    rfl

end DirectiveName

theorem ascii_of_isNameChar (c : Char) (h : isNameChar c = true) : c.toNat < 128 := by
  rw [isNameChar, Bool.or_eq_true, Bool.or_eq_true, beq_iff_eq, beq_iff_eq] at h
  obtain (letter | rfl) | rfl := h
  · rw [isAsciiAlphanumeric] at letter
    have ranges : ((decide (c.val ≥ 'A'.val ∧ c.val ≤ 'Z'.val) ||
        (decide (c.val ≥ 'a'.val) && decide (c.val ≤ 'z'.val))) ||
        (decide (c.val ≥ '0'.val) && decide (c.val ≤ '9'.val))) = true := letter
    simp only [Bool.or_eq_true, Bool.and_eq_true, decide_eq_true_eq, ge_iff_le,
      UInt32.le_iff_toNat_le] at ranges
    have same : c.toNat = c.val.toNat := rfl
    have codes : 'Z'.val.toNat = 90 ∧ 'z'.val.toNat = 122 ∧ '9'.val.toNat = 57 := by decide
    omega
  · decide
  · decide

/-- The characters of names are characters of words, or dots, and no candidate begins behind them. -/
theorem isNameChar_cases {c : Char} (h : isNameChar c = true) :
    isDotted c = true ∧ insideWord (some c) = true := by
  have ascii := ascii_of_isNameChar c h
  rw [isNameChar, Bool.or_eq_true, Bool.or_eq_true, beq_iff_eq, beq_iff_eq] at h
  obtain (letter | rfl) | rfl := h
  · rw [isAsciiAlphanumeric] at letter
    rw [isDotted, isWordChar, insideWord, Option.any_some, isAlphanumeric, if_pos ascii,
      if_pos ascii, letter]
    exact ⟨rfl, rfl⟩
  · decide
  · decide

theorem isDotted_of_isNameChar {c : Char} (h : isNameChar c = true) : isDotted c = true :=
  (isNameChar_cases h).1

theorem isDotted_of_isWordChar {c : Char} (h : isWordChar c = true) : isDotted c = true := by
  rw [isDotted, h]
  rfl

/-- The characters of names are not blank, and no bracket. -/
theorem of_isDotted {c : Char} (h : isDotted c = true) :
    isBlank c = false ∧ c ≠ '<' ∧ c ≠ '[' ∧ c ≠ '(' ∧ c ≠ '>' := by
  refine ⟨?_, ?_, ?_, ?_, ?_⟩
  · by_contra blank
    rw [Bool.not_eq_false] at blank
    rw [isDotted_of_isBlank blank] at h
    cases h
  all_goals
    rintro rfl
    exact absurd h (by decide)

private theorem insideWord_of_isBlank {c : Char} (h : isBlank c = true) :
    insideWord (some c) = false := by
  have other {d : Char} (unblank : isBlank d = false) : (c == d) = false := by
    rw [beq_eq_false_iff_ne]
    rintro rfl
    rw [h] at unblank
    cases unblank
  rw [insideWord, Option.any_some, (of_isBlank h).2, other (by decide), other (by decide),
    other (by decide)]
  rfl

theorem insideWord_lastBehind {prev : Option Char} {blanks : List Char}
    (h : blanks.all isBlank = true) (outside : blanks = [] → insideWord prev = false) :
    insideWord (lastBehind prev blanks) = false := by
  rw [lastBehind]
  cases last : blanks.getLast? with
  | none => exact outside (List.getLast?_eq_none_iff.1 last)
  | some c =>
    exact insideWord_of_isBlank (List.all_eq_true.1 h c (List.mem_of_getLast? last))

theorem follows_of_head? {rest : List Char} {c : Char} (head : rest.head? = some c)
    (blank : isBlank c = false) (word : isWordChar c = false) (angle : c ≠ '<')
    (bracket : c ≠ '[') : Follows rest := by
  refine ⟨?_, ?_, ?_, ?_⟩
  · rw [head, Option.any_some, blank]
  · rw [head]
    exact fun same => angle (Option.some.inj same)
  · rw [head]
    exact fun same => bracket (Option.some.inj same)
  · intro w r found
    rw [word?, run?, head, Option.any_some, word] at found
    cases found

theorem isDotted_of_suffix {w : Written} (silent : w.Silent) {back : List Char}
    (suffix : back <:+ w.qualified) : back.all isDotted = true :=
  all_wider (fun _ => isDotted_of_isNameChar) (all_of_suffix silent.characters suffix)

private theorem follows_paren (rest : List Char) : Follows ('(' :: rest) :=
  follows_of_head? rfl (by decide) (by decide) (by decide) (by decide)

private theorem follows_written (w : Written) (rest : List Char) : Follows (w.text ++ rest) :=
  follows_of_head? rfl (by decide) (by decide) (by decide) (by decide)

/-- A directive with arguments is passed over. -/
theorem headsFrom_arguments {w : Written} (silent : w.Silent) {space inside : List Char}
    (arguments : w.arguments = some (space, inside)) (rest : List Char) (prev : Option Char) :
    headsFrom source prev (w.text ++ (w.gap ++ rest)) =
      headsFrom source (lastBehind (some ')') w.gap) rest := by
  have blanks := silent.space (space, inside) arguments
  have undotted : isDotted '(' = false := by decide
  have text : w.text ++ (w.gap ++ rest) =
      '@' :: (w.qualified ++ (space ++ '(' :: (inside ++ ')' :: (w.gap ++ rest)))) := by
    simp [Written.text, Written.argumentText, arguments]
  have name (back : List Char) (suffix : back <:+ w.qualified) (nonempty : back ≠ []) :
      candidate? (back ++ (space ++ '(' :: (inside ++ ')' :: (w.gap ++ rest)))) = none :=
    candidate?_directiveName_of_head? (isDotted_of_suffix silent suffix) nonempty blanks
      (follows_paren _) (fun _ => undotted) undotted
  rw [text, headsFrom_cons (by decide) (by decide), headsFrom_append_of_none _ name,
    headsFrom_blanks blanks, headsFrom_cons undotted (by decide),
    headsFrom_calm (by decide) (silent.calm (space, inside) arguments), headsFrom_blanks silent.gap]

theorem text_bare {w : Written} (bare : w.arguments = none) (rest : List Char) :
    w.text ++ rest = '@' :: (w.qualified ++ rest) := by
  simp [Written.text, Written.argumentText, bare]

private theorem headsFrom_sign (w : Written) (rest : List Char) (prev prev' : Option Char) :
    headsFrom source prev (w.text ++ rest) = headsFrom source prev' (w.text ++ rest) := by
  rw [Written.text, List.cons_append, headsFrom_cons (by decide) (by decide),
    headsFrom_cons (by decide) (by decide)]

/-- Directives in front of another one are passed over. -/
theorem headsFrom_directives {ws : List Written} (silent : ∀ w ∈ ws, w.Silent) (w : Written)
    (rest : List Char) (prev : Option Char) :
    headsFrom source prev (leadText ws ++ (w.text ++ rest)) =
      headsFrom source none (w.text ++ rest) := by
  induction ws generalizing prev with
  | nil => exact headsFrom_sign w rest prev none
  | cons v ws ih =>
    rw [List.forall_mem_cons] at silent
    obtain ⟨u, behind, sign⟩ : ∃ u : Written, ∃ behind, leadText ws ++ (w.text ++ rest) =
        u.text ++ behind := by
      cases ws with
      | nil => exact ⟨w, rest, rfl⟩
      | cons u ws => exact ⟨u, u.gap ++ (leadText ws ++ (w.text ++ rest)), by simp [leadText]⟩
    have text : leadText (v :: ws) ++ (w.text ++ rest) =
        v.text ++ (v.gap ++ (leadText ws ++ (w.text ++ rest))) := by
      simp [leadText]
    rw [text]
    cases arguments : v.arguments with
    | none =>
      have undotted : (u.text ++ behind).head?.any isDotted = false := by
        change isDotted '@' = false
        decide
      have name (back : List Char) (suffix : back <:+ v.qualified) (nonempty : back ≠ []) :
          candidate? (back ++ (v.gap ++ (leadText ws ++ (w.text ++ rest)))) = none := by
        rw [sign]
        exact candidate?_directiveName_of_head? (isDotted_of_suffix silent.1 suffix) nonempty
          silent.1.gap (follows_written u behind) (fun _ => undotted) undotted
      rw [text_bare arguments, headsFrom_cons (by decide) (by decide),
        headsFrom_append_of_none _ name, headsFrom_blanks silent.1.gap, ih silent.2]
    | some found => rw [headsFrom_arguments silent.1 arguments, ih silent.2]

theorem leadText_concat (ws : List Written) (w : Written) (rest : List Char) :
    leadText (ws ++ [w]) ++ rest = leadText ws ++ (w.text ++ (w.gap ++ rest)) := by
  simp [leadText]

end ApiCollection.Java
