import ApiCollection.Proofs.TypeHeader

/-!
# Types behind directives

The name of the type that is declared at a place is read behind directives with plain argument lists
and behind modifiers. Directives whose arguments look like no declaration declare nothing else than
what stands behind them.
-/

namespace ApiCollection

open Text Java

section Skip

variable {skip : List Char → Option (List Char)} {cs rest : List Char}

theorem skipAll_of_none (h : skip cs = none) : skipAll skip cs = cs := by
  rw [skipAll, h]

theorem skipAll_of_some (h : skip cs = some rest) (shorter : rest.length < cs.length) :
    skipAll skip cs = skipAll skip rest := by
  rw [skipAll, h]
  exact if_pos shorter

/-- What every skip keeps holds behind all of them. -/
theorem skipAll_induct {P : List Char → Prop}
    (step : ∀ cs rest, P cs → skip cs = some rest → P rest) (h : P cs) : P (skipAll skip cs) := by
  fun_induction skipAll skip cs with
  | case1 cs found => exact h
  | case2 cs rest found shorter ih => exact ih (step cs rest h found)
  | case3 cs rest found same => exact h

end Skip

def afterModifier? (cs : List Char) : Option (List Char) := (keyword? classModifiers cs).map (·.2)

def typeName? (cs : List Char) : Option (List Char) :=
  wordBehind? classKeywords (skipAll afterModifier? (skipAll afterPlainDirective? cs))

theorem name_classDeclaration? (prev : Option Char) (cs : List Char) :
    (classDeclaration? prev cs).map (·.1) =
      if atLineStart prev then (typeName? (cs.dropWhile isTabOrSpace)).map String.ofList
      else none := by
  rw [classDeclaration?, typeName?, wordBehind?]
  cases atLineStart prev with
  | false => rfl
  | true =>
    change ((keyword? classKeywords (skipAll afterModifier? (skipAll afterPlainDirective?
      (cs.dropWhile isTabOrSpace)))).bind fun found => (word? found.2).bind fun word =>
        some (String.ofList word.1, _)).map _ = _
    cases keyword? classKeywords (skipAll afterModifier?
        (skipAll afterPlainDirective? (cs.dropWhile isTabOrSpace))) with
    | none => rfl
    | some found => cases read : word? found.2 <;> simp [read]

def Declares (name cs : List Char) : Prop := ∀ n, typeName? cs = some n → n = name

theorem afterPlainDirective?_of_head? {cs : List Char} (sign : cs.head? ≠ some '@') :
    afterPlainDirective? cs = none := by
  have none' : afterChar? '@' cs = none := by
    cases cs with
    | nil => rfl
    | cons c cs =>
      rw [afterChar?, if_neg]
      simpa using sign
  rw [afterPlainDirective?, none']
  rfl

theorem afterModifier?_eq (cs : List Char) : afterModifier? cs =
    if String.ofList (cs.takeWhile isWordChar) ∈ classModifiers then
      afterBlanks? (cs.dropWhile isWordChar) else none := by
  rw [afterModifier?, keyword?_eq areWords_classModifiers]
  split
  · rw [Option.map_map]
    exact Option.map_id_apply
  · rfl

/-- Nothing is declared by a text that begins with another word. -/
theorem declares_of_other {cs : List Char} (sign : cs.head? ≠ some '@')
    (other : String.ofList (cs.takeWhile isWordChar) ∉ classModifiers ++ classKeywords)
    (name : List Char) : Declares name cs := by
  rw [List.mem_append, not_or] at other
  intro n found
  rw [typeName?, skipAll_of_none (afterPlainDirective?_of_head? sign), skipAll_of_none,
    wordBehind?_eq areWords_classKeywords, if_neg other.2] at found
  · cases found
  · rw [afterModifier?_eq, if_neg other.1]

theorem declares_of_head? {cs : List Char} (sign : cs.head? ≠ some '@')
    (word : cs.head?.any isWordChar = false) (name : List Char) : Declares name cs := by
  apply declares_of_other sign
  rw [takeWhile_of_head? word]
  decide

/-- What is left of a text that a closing parenthesis ends, with what stands behind it. -/
def IsTail (s m cs : List Char) : Prop := ∃ t, t <:+ s ∧ cs = t ++ ')' :: m

theorem suffix_afterBlanks? {cs rest : List Char} (h : afterBlanks? cs = some rest) :
    rest <:+ cs := by
  obtain ⟨blanks, rfl, -⟩ := afterBlanks?_split h
  exact List.suffix_append _ _

private theorem isTail_afterModifier? {s m cs rest : List Char} (h : IsTail s m cs)
    (skipped : afterModifier? cs = some rest) : IsTail s m rest := by
  obtain ⟨t, suffix, rfl⟩ := h
  rw [afterModifier?_eq, takeWhile_stop (by decide), dropWhile_stop (by decide),
    afterBlanks?_stop (by decide)] at skipped
  split at skipped
  · obtain ⟨left, blanks, rfl⟩ := Option.map_eq_some_iff.1 skipped
    have suffix' := (suffix_afterBlanks? blanks).trans (List.dropWhile_suffix _)
    exact ⟨left, suffix'.trans suffix, rfl⟩
  · cases skipped

theorem suffix_dottedWord? {cs word left : List Char} (h : dottedWord? cs = some (word, left)) :
    left <:+ cs := by
  obtain ⟨rfl, -⟩ := run?_eq_some h
  exact List.suffix_append _ _

/-- The text behind the arguments of a directive, which end at the first closing parenthesis, and
behind the blanks that follow. -/
def afterPlainArguments? (cs : List Char) : Option (List Char) :=
  match afterChar? '(' cs with
  | none => afterBlanks? cs
  | some inside => (afterChar? ')' (inside.dropWhile (· != ')'))).bind afterBlanks?

theorem afterPlainDirective?_eq (cs : List Char) : afterPlainDirective? cs =
    (afterChar? '@' cs).bind fun named => (dottedWord? named).bind fun found =>
      afterPlainArguments? found.2 := rfl

private theorem afterBlanks?_tail {s m rest : List Char}
    (h : afterBlanks? (s ++ ')' :: m) = some rest) :
    IsTail s m rest := by
  rw [afterBlanks?_stop (by decide)] at h
  obtain ⟨left, blanks, rfl⟩ := Option.map_eq_some_iff.1 h
  exact ⟨left, suffix_afterBlanks? blanks, rfl⟩

private theorem afterPlainArguments?_tail {s m rest : List Char}
    (h : afterPlainArguments? (s ++ ')' :: m) = some rest) : IsTail s m rest ∨ rest = trimStart m := by
  rw [afterPlainArguments?, afterChar?_stop (by decide)] at h
  cases paren : afterChar? '(' s with
  | none =>
    rw [paren] at h
    exact Or.inl (afterBlanks?_tail h)
  | some inside =>
    rw [paren, Option.map_some] at h
    dsimp only at h
    obtain rfl := afterChar?_eq_some_iff.1 paren
    rw [dropWhile_stop (by decide)] at h
    have suffix : inside.dropWhile (· != ')') <:+ inside := List.dropWhile_suffix _
    have first := List.head?_dropWhile_not (· != ')') inside
    cases left : inside.dropWhile (· != ')') with
    | nil =>
      rw [left, List.nil_append, afterChar?_eq_some_iff.2 rfl, Option.bind_some] at h
      exact Or.inr (afterBlanks?_eq_trimStart h)
    | cons c behind =>
      rw [left] at h first suffix
      obtain rfl : c = ')' := by simpa using first
      rw [List.cons_append, afterChar?_eq_some_iff.2 rfl, Option.bind_some] at h
      obtain ⟨t, suffix', rfl⟩ := afterBlanks?_tail h
      exact Or.inl ⟨t, ((suffix'.trans (List.suffix_cons _ _)).trans suffix).trans
        (List.suffix_cons _ _), rfl⟩

/-- Behind a directive there is less of such a text, or only what stands behind it. -/
theorem afterPlainDirective?_tail {s m rest : List Char}
    (h : afterPlainDirective? (s ++ ')' :: m) = some rest) :
    (∃ t, t <:+ s ∧ t.length < s.length ∧ rest = t ++ ')' :: m) ∨ rest = trimStart m := by
  rw [afterPlainDirective?_eq, afterChar?_stop (by decide)] at h
  obtain ⟨named, sign, read⟩ := Option.bind_eq_some_iff.1 h
  obtain ⟨behind, begins, rfl⟩ := Option.map_eq_some_iff.1 sign
  obtain rfl := afterChar?_eq_some_iff.1 begins
  rw [dottedWord?_stop (by decide)] at read
  obtain ⟨found, name, read⟩ := Option.bind_eq_some_iff.1 read
  obtain ⟨⟨word, left⟩, split, rfl⟩ := Option.map_eq_some_iff.1 name
  have suffix := suffix_dottedWord? split
  refine (afterPlainArguments?_tail read).imp_left ?_
  rintro ⟨t, suffix', rfl⟩
  have whole := suffix'.trans suffix
  exact ⟨t, whole.trans (List.suffix_cons _ _), Nat.lt_succ_of_le whole.length_le, rfl⟩

/-- Where no type is mentioned up to a closing parenthesis, only what stands behind it declares a
type. -/
theorem declares_tail {s m name : List Char}
    (calm : ∀ t, t <:+ s → mentionsHere classKeywords (t ++ [')']) = false)
    (next : Declares name (trimStart m)) : Declares name (s ++ ')' :: m) := by
  induction hn : s.length using Nat.strongRecOn generalizing s with
  | ind n ih =>
    subst hn
    intro found declared
    cases skipped : afterPlainDirective? (s ++ ')' :: m) with
    | none =>
      rw [typeName?, skipAll_of_none skipped] at declared
      have kept : IsTail s m (skipAll afterModifier? (s ++ ')' :: m)) :=
        skipAll_induct (fun _ _ => isTail_afterModifier?) ⟨s, List.suffix_refl s, rfl⟩
      obtain ⟨t, suffix, same⟩ := kept
      rw [same] at declared
      have mention := mentionsHere_of_wordBehind? (by decide) t areWords_classKeywords declared
      rw [calm t suffix] at mention
      cases mention
    | some rest =>
      have shorter : rest.length < (s ++ ')' :: m).length := by
        obtain ⟨t, suffix, shorter, rfl⟩ | rfl := afterPlainDirective?_tail skipped
        · simp
          omega
        · have less := length_trimStart_le m
          simp
          omega
      have same : typeName? (s ++ ')' :: m) = typeName? rest := by
        rw [typeName?, skipAll_of_some skipped shorter]
        rfl
      rw [same] at declared
      obtain ⟨t, suffix, smaller, rfl⟩ | rfl := afterPlainDirective?_tail skipped
      · exact ih t.length smaller (fun u suffix' => calm u (suffix'.trans suffix)) rfl found declared
      · exact next found declared

def Quiet (w : Written) : Prop :=
  ∀ t, t ++ [')'] <:+ w.text → mentionsHere classKeywords (t ++ [')']) = false

def joinsDirective (c : Char) : Bool := isDotted c || c == '('

theorem joinsDirective_of_isBlank {c : Char} (h : isBlank c = true) : joinsDirective c = false := by
  rw [joinsDirective, isDotted_of_isBlank h, Bool.false_or, beq_eq_false_iff_ne]
  rintro rfl
  exact absurd h (by decide)

private theorem afterPlainDirective?_bare {w : Written} (readable : w.Readable) {m : List Char}
    (ends : m.head?.any joinsDirective = false) :
    afterPlainDirective? ('@' :: (w.qualified ++ m)) = afterBlanks? m := by
  have apart : m.head?.any isDotted = false ∧ m.head? ≠ some '(' := by
    cases m with
    | nil => simp
    | cons c m => simpa [joinsDirective] using ends
  have dotted : w.qualified.all isDotted = true := by
    rw [List.all_eq_true]
    exact fun c hc => isDotted_of_isNameChar (List.all_eq_true.1 readable.characters c hc)
  have nonempty : w.qualified ≠ [] := by
    intro empty
    exact readable.named (by rw [empty]; rfl)
  have name : dottedWord? (w.qualified ++ m) = some (w.qualified, m) :=
    run?_append dotted nonempty apart.1
  rw [afterPlainDirective?_eq, afterChar?_eq_some_iff.2 rfl, Option.bind_some, name,
    Option.bind_some, afterPlainArguments?, afterChar?_of_head? apart.2]

/-- A quiet directive declares no type itself. -/
theorem declares_written {w : Written} (readable : w.Readable) (quiet : Quiet w)
    {name m : List Char}
    (ends : m.head?.any joinsDirective = false) (behind : Declares name (trimStart m)) : Declares name (w.text ++ m) := by
  cases arguments : w.arguments with
  | none =>
    rw [text_of_no_arguments arguments, List.cons_append]
    have read := afterPlainDirective?_bare readable ends
    intro found declared
    cases skipped : afterBlanks? m with
    | none =>
      rw [skipped] at read
      rw [typeName?, skipAll_of_none read, skipAll_of_none] at declared
      · cases declared
      · rfl
    | some rest =>
      obtain rfl := afterBlanks?_eq_trimStart skipped
      have less := length_trimStart_le m
      rw [skipped] at read
      rw [typeName?, skipAll_of_some read] at declared
      · exact behind found declared
      · simp only [List.length_cons, List.length_append]
        omega
  | some found =>
    obtain ⟨space, inside⟩ := found
    have text : w.text = (w.opening space ++ inside) ++ [')'] := by
      rw [text_of_arguments arguments, List.append_assoc]
    rw [text, List.append_assoc, List.singleton_append]
    apply declares_tail _ behind
    rintro t ⟨front, same⟩
    apply quiet
    exact ⟨front, by rw [text, ← same, List.append_assoc]⟩

/-- Directives declare nothing else than what stands behind them. -/
theorem declares_leadText {ws : List Written} (readable : ∀ w ∈ ws, w.Readable)
    (quiet : ∀ w ∈ ws, Quiet w) {name rest : List Char}
    (ends : rest.head?.any joinsDirective = false) (behind : Declares name (trimStart rest)) :
    Declares name (trimStart (leadText ws ++ rest)) ∧
      (leadText ws ++ rest).head?.any joinsDirective = false := by
  induction ws with
  | nil => exact ⟨behind, ends⟩
  | cons w ws ih =>
    rw [List.forall_mem_cons] at readable quiet
    obtain ⟨later, ends'⟩ := ih readable.2 quiet.2
    have gap := all_isBlank readable.1.gap
    have text : leadText (w :: ws) ++ rest = w.text ++ (w.gap ++ (leadText ws ++ rest)) := by
      simp [leadText]
    have start : trimStart (w.text ++ (w.gap ++ (leadText ws ++ rest))) =
        w.text ++ (w.gap ++ (leadText ws ++ rest)) := trimStart_of_head? rfl
    have apart : (w.gap ++ (leadText ws ++ rest)).head?.any joinsDirective = false :=
      head?_any_blanks gap (fun c blank => joinsDirective_of_isBlank blank) fun _ => ends'
    rw [text, start]
    constructor
    · apply declares_written readable.1 quiet.1 apart
      rwa [trimStart_blanks_append gap]
    · have head : (w.text ++ (w.gap ++ (leadText ws ++ rest))).head? = some '@' := rfl
      rw [head]
      rfl

/-- Behind a line break in the arguments of a directive nothing else is declared than behind the
directives. -/
theorem declares_break {ws : List Written} (readable : ∀ w ∈ ws, w.Readable)
    (quiet : ∀ w ∈ ws, Quiet w) {name rest : List Char}
    (ends : rest.head?.any joinsDirective = false) (behind : Declares name (trimStart rest))
    {f s : List Char} (split : leadText ws = f ++ '\n' :: s) :
    Declares name ((s ++ rest).dropWhile isTabOrSpace) := by
  induction ws generalizing f s with
  | nil => simp [leadText] at split
  | cons w ws ih =>
    rw [List.forall_mem_cons] at readable quiet
    obtain ⟨later, -⟩ := declares_leadText readable.2 quiet.2 ends behind
    have gap : '\n' ∉ w.gap := not_mem_of_plain readable.1.gap (by decide)
    rw [leadText, List.flatMap_cons, ← leadText] at split
    obtain ⟨front, -, same⟩ | ⟨left, own, same⟩ := List.append_eq_append_iff.1 split
    · exact ih readable.2 quiet.2 same
    cases left with
    | nil => exact @ih readable.2 quiet.2 [] s same.symm
    | cons c left =>
      obtain ⟨rfl, rfl⟩ := List.cons_eq_cons.1 same
      cases arguments : w.arguments with
      | none =>
        have name : '\n' ∉ w.qualified := not_mem_of_plain readable.1.characters (by decide)
        have member : '\n' ∈ w.text ++ w.gap := by simp [own]
        simp [text_of_no_arguments arguments, gap, name] at member
      | some found =>
        obtain ⟨space, inside⟩ := found
        rw [text_of_arguments arguments, List.append_assoc, List.append_assoc] at own
        obtain ⟨read, more, -, rfl, rfl⟩ := exists_of_mem_middle
          (lineFeed_not_mem_opening readable.1 arguments) (by simpa using gap) own
        have text : ((more ++ ([')'] ++ w.gap)).append (leadText ws)) ++ rest =
            more ++ ')' :: (w.gap ++ (leadText ws ++ rest)) := by simp
        rw [text, dropWhile_stop (by decide)]
        apply declares_tail
        · intro t suffix
          apply quiet.1
          rw [text_of_arguments arguments]
          obtain ⟨front, same⟩ := suffix.trans (List.dropWhile_suffix _)
          exact ⟨w.opening space ++ (read ++ '\n' :: front), by simp [← same]⟩
        · rwa [trimStart_blanks_append (all_isBlank readable.1.gap)]

end ApiCollection
