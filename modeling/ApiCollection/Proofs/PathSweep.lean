import ApiCollection.Endpoint.Draft
import ApiCollection.Proofs.Blanks
import ApiCollection.Proofs.TextPieces

/-!
# Templates in paths

A template is a name in braces, perhaps with a pattern behind a colon. Extraction reads a template
if its name is a word. It steps over the brace of any other one, and so comes upon what stands in
braces in the pattern.
-/

namespace ApiCollection

open Text

/-- Whether every opening brace of a text is closed in the text. -/
def ClosedBraces (cs : List Char) : Prop := ∀ a b, cs = a ++ '\x7b' :: b → '\x7d' ∈ b

private theorem ClosedBraces.of_suffix {xs ys : List Char} (h : ClosedBraces xs)
    (suffix : ys <:+ xs) :
    ClosedBraces ys := by
  obtain ⟨front, rfl⟩ := suffix
  intro a b same
  exact h (front ++ a) b (by rw [same, List.append_assoc])

theorem ClosedBraces.concat {cs : List Char} (h : ClosedBraces cs) {c : Char} (ne : c ≠ '\x7b') :
    ClosedBraces (cs ++ [c]) := by
  intro a b same
  rcases List.eq_nil_or_concat b with rfl | ⟨b, d, rfl⟩
  · obtain ⟨-, last⟩ := List.append_inj' same rfl
    exact absurd (List.cons.inj last).1 ne
  · rw [List.concat_eq_append] at same ⊢
    rw [← List.cons_append, ← List.append_assoc] at same
    obtain ⟨front, -⟩ := List.append_inj' same rfl
    exact List.mem_append_left _ (h a b front)

namespace Text

variable {α : Type}

/-- A reader takes a text in braces, up to the first closing one; `Inside` says which texts it takes
for what. -/
structure ReadsBraces (read : Option Char → List Char → Option (α × List Char))
    (Inside : α → List Char → Prop) : Prop where
  read_iff : ∀ {prev : Option Char} {cs : List Char} {a : α} {rest : List Char},
    read prev cs = some (a, rest) ↔
      ∃ inside, Inside a inside ∧ cs = '\x7b' :: (inside ++ '\x7d' :: rest)
  closed : ∀ {a : α} {inside : List Char}, Inside a inside → '\x7d' ∉ inside

namespace ReadsBraces

variable {read : Option Char → List Char → Option (α × List Char)} {Inside : α → List Char → Prop}
  {a : α} {c : Char} {cs front inside : List Char}

private theorem read_eq (h : ReadsBraces read Inside) (prev prev' : Option Char) (cs : List Char) :
    read prev cs = read prev' cs :=
  Option.ext fun _ => h.read_iff.trans h.read_iff.symm

theorem sweepFrom_eq (h : ReadsBraces read Inside) (prev : Option Char) (cs : List Char) :
    sweepFrom read prev cs = sweep read cs := by
  cases cs with
  | nil => rw [sweep, sweepFrom, sweepFrom]
  | cons c cs => rw [sweep, sweepFrom, sweepFrom, h.read_eq prev none]

theorem sweep_cons (h : ReadsBraces read Inside) (nothing : read none (c :: cs) = none) :
    sweep read (c :: cs) = sweep read cs := by
  rw [sweep, sweepFrom, nothing]
  exact h.sweepFrom_eq _ _

/-- A sweep goes on behind what it has read. -/
theorem sweep_inside (h : ReadsBraces read Inside) (here : Inside a inside) (rest : List Char) :
    sweep read ('\x7b' :: (inside ++ '\x7d' :: rest)) = a :: sweep read rest := by
  have found : read none ('\x7b' :: (inside ++ '\x7d' :: rest)) = some (a, rest) :=
    h.read_iff.2 ⟨inside, here, rfl⟩
  have shorter : rest.length ≤ (inside ++ '\x7d' :: rest).length := by
    simp only [List.length_append, List.length_cons]
    omega
  rw [sweep, sweepFrom, found]
  dsimp only
  rw [if_pos shorter, h.sweepFrom_eq]

/-- A sweep steps over what has no opening brace. -/
theorem sweep_append (h : ReadsBraces read Inside) (absent : '\x7b' ∉ front) (cs : List Char) :
    sweep read (front ++ cs) = sweep read cs := by
  induction front with
  | nil => rfl
  | cons c front ih =>
    rw [List.mem_cons, not_or] at absent
    rw [List.cons_append, h.sweep_cons, ih absent.2]
    rw [Option.eq_none_iff_forall_ne_some]
    rintro ⟨a, rest⟩ found
    obtain ⟨inside, -, same⟩ := h.read_iff.1 found
    exact absent.1 (List.cons.inj same).1.symm

/-- Nothing is read over the first closing brace. -/
theorem sweep_append_cons (h : ReadsBraces read Inside) (closed : '\x7d' ∉ front)
    (rest : List Char) :
    sweep read (front ++ '\x7d' :: rest) = sweep read (front ++ ['\x7d']) ++ sweep read rest := by
  have brace (rest : List Char) : sweep read ('\x7d' :: rest) = sweep read rest :=
    h.sweep_append (by decide : '\x7b' ∉ ['\x7d']) rest
  have nothing : sweep read [] = [] := by rw [sweep, sweepFrom]
  induction front with
  | nil => rw [List.nil_append, List.nil_append, brace, brace, nothing, List.nil_append]
  | cons c front ih =>
    by_cases found : c = '\x7b' ∧ ∃ a, Inside a front
    · obtain ⟨rfl, a, here⟩ := found
      rw [List.cons_append, List.cons_append, h.sweep_inside here, h.sweep_inside here, nothing,
        List.singleton_append]
    · -- What stands behind the first closing brace does not decide whether something is read.
      have other (rest : List Char) : read none (c :: (front ++ '\x7d' :: rest)) = none := by
        rw [Option.eq_none_iff_forall_ne_some]
        rintro ⟨a, rest'⟩ some'
        obtain ⟨inside, here, same⟩ := h.read_iff.1 some'
        obtain ⟨rfl, tails⟩ := List.cons.inj same
        rw [List.mem_cons, not_or] at closed
        obtain ⟨rfl, -⟩ := append_cons_inj closed.2 (h.closed here) tails
        exact found ⟨rfl, a, here⟩
      rw [List.cons_append, List.cons_append, h.sweep_cons (other _), h.sweep_cons (other _)]
      exact ih fun member => closed (List.mem_cons_of_mem _ member)

/-- What stands in braces is read, unless a brace in front of it is open. -/
theorem mem_sweep (h : ReadsBraces read Inside) (closed : ClosedBraces front)
    (here : Inside a inside) (rest : List Char) :
    a ∈ sweep read (front ++ '\x7b' :: (inside ++ '\x7d' :: rest)) := by
  induction n : front.length using Nat.strong_induction_on generalizing front with
  | _ n ih =>
    cases front with
    | nil =>
      rw [List.nil_append, h.sweep_inside here]
      exact List.mem_cons_self
    | cons c front =>
      rw [List.cons_append]
      cases found : read none (c :: (front ++ '\x7b' :: (inside ++ '\x7d' :: rest))) with
      | none =>
        rw [h.sweep_cons found]
        exact ih front.length (by simp [← n]) (closed.of_suffix (List.suffix_cons c front)) rfl
      | some result =>
        obtain ⟨b, rest'⟩ := result
        obtain ⟨inside', here', same⟩ := h.read_iff.1 found
        obtain ⟨rfl, tails⟩ := List.cons.inj same
        -- What is read ends in front, since its brace is closed there.
        obtain ⟨before, behind, rfl, first⟩ := List.eq_append_cons_of_mem (closed [] front rfl)
        rw [List.append_assoc, List.cons_append] at tails
        obtain ⟨-, rfl⟩ := append_cons_inj first (h.closed here') tails
        rw [same, h.sweep_inside here']
        refine List.mem_cons_of_mem _ (ih behind.length ?_ ?_ rfl)
        · simp only [← n, List.length_append, List.length_cons]
          omega
        · exact closed.of_suffix ⟨'\x7b' :: (before ++ ['\x7d']), by simp⟩

/-- What a sweep finds stands in braces. -/
theorem exists_of_mem_sweep (h : ReadsBraces read Inside) (member : a ∈ sweep read cs) :
    ∃ front inside rest, Inside a inside ∧ cs = front ++ '\x7b' :: (inside ++ '\x7d' :: rest) := by
  obtain ⟨_, s, rest, ⟨front, rfl⟩, found⟩ := exists_of_mem_sweepFrom (P := (· <:+ cs))
    (fun c s suffix => (List.suffix_cons c s).trans suffix)
    (fun prev s b rest suffix found => by
      obtain ⟨inside, -, rfl⟩ := h.read_iff.1 found
      exact List.IsSuffix.trans ⟨'\x7b' :: (inside ++ ['\x7d']), by simp⟩ suffix)
    (List.suffix_refl cs) member
  obtain ⟨inside, here, rfl⟩ := h.read_iff.1 found
  exact ⟨front, inside, rest, here, rfl⟩

end ReadsBraces
end Text

/-- What stands in braces in a path: a name, and perhaps a pattern behind a colon. -/
structure Template where
  name : List Char
  pattern? : Option (List Char)
  deriving DecidableEq, Repr

namespace Template

def inside (g : Template) : List Char := g.name ++ (g.pattern?.map (':' :: ·)).getD []

def key (g : Template) : String := String.ofList g.name

def isWord (g : Template) : Bool := g.name.all isWordChar

/-- Whether the name is a run of characters of a class and the pattern has no closing brace. -/
structure Named (p : Char → Bool) (g : Template) : Prop where
  nonempty : g.name ≠ []
  name : g.name.all p = true
  pattern : ∀ pattern ∈ g.pattern?, '\x7d' ∉ pattern

/-- Reads a template whose name is a run of characters of a class. -/
def read? (p : Char → Bool) (_ : Option Char) (cs : List Char) :
    Option (Template × List Char) := do
  let (name, behind) ← run? p (← afterChar? '\x7b' cs)
  let (pattern?, behind) := match afterChar? ':' behind with
    | some pattern => (some (pattern.takeWhile (· != '\x7d')), pattern.dropWhile (· != '\x7d'))
    | none => (none, behind)
  let rest ← afterChar? '\x7d' behind
  return (⟨name, pattern?⟩, rest)

private theorem read?_inside {p : Char → Bool} (colon : p ':' = false) (brace : p '\x7d' = false)
    {g : Template} (named : g.Named p) (prev : Option Char) (rest : List Char) :
    read? p prev ('\x7b' :: (g.inside ++ '\x7d' :: rest)) = some (g, rest) := by
  obtain ⟨name, pattern?⟩ := g
  have letters (behind : List Char) (stop : behind.head?.any p = false) :
      run? p (name ++ behind) = some (name, behind) :=
    run?_append named.name named.nonempty stop
  have opened (cs : List Char) : afterChar? '\x7b' ('\x7b' :: cs) = some cs := rfl
  rw [read?, opened, inside]
  cases pattern? with
  | none =>
    simp only [Option.map_none, Option.getD_none, List.append_nil, Option.bind_eq_bind,
      Option.bind_some, letters ('\x7d' :: rest) brace]
    rfl
  | some pattern =>
    have plain : ∀ c ∈ pattern, (c != '\x7d') = true := by
      intro c member
      exact bne_iff_ne.2 fun same => named.pattern pattern rfl (same ▸ member)
    have colon' : afterChar? ':' (':' :: (pattern ++ '\x7d' :: rest)) =
        some (pattern ++ '\x7d' :: rest) := rfl
    have taken : (pattern ++ '\x7d' :: rest).takeWhile (· != '\x7d') = pattern := by
      rw [List.takeWhile_append_of_pos plain]
      exact List.append_nil pattern
    have dropped : (pattern ++ '\x7d' :: rest).dropWhile (· != '\x7d') = '\x7d' :: rest := by
      rw [List.dropWhile_append_of_pos plain]
      rfl
    simp only [Option.map_some, Option.getD_some, List.append_assoc, List.cons_append,
      Option.bind_eq_bind, Option.bind_some,
      letters (':' :: (pattern ++ '\x7d' :: rest)) colon, colon', taken, dropped]
    rfl

private theorem read?_eq_some {p : Char → Bool} {prev : Option Char} {cs rest : List Char}
    {g : Template}
    (h : read? p prev cs = some (g, rest)) :
    g.Named p ∧ cs = '\x7b' :: (g.inside ++ '\x7d' :: rest) := by
  simp only [read?, Option.bind_eq_bind, Option.bind_eq_some_iff, Option.pure_def,
    Option.some.injEq, Prod.mk.injEq] at h
  obtain ⟨cs, opened, ⟨name, behind⟩, letters, rest, closed, rfl, rfl⟩ := h
  obtain ⟨rfl, all, nonempty⟩ := run?_eq_some letters
  rw [afterChar?_eq_some_iff.1 opened, inside]
  cases constraint : afterChar? ':' behind with
  | none =>
    simp only [constraint] at closed ⊢
    rw [afterChar?_eq_some_iff.1 closed]
    exact ⟨⟨nonempty, all, nofun⟩, by simp⟩
  | some pattern =>
    simp only [constraint] at closed ⊢
    refine ⟨⟨nonempty, all, ?_⟩, ?_⟩
    · rintro _ ⟨⟩ member
      simpa using List.mem_takeWhile_imp member
    · simp only [afterChar?_eq_some_iff.1 constraint, Option.map_some, Option.getD_some,
        List.append_assoc, List.cons_append]
      rw [← afterChar?_eq_some_iff.1 closed, List.takeWhile_append_dropWhile]

theorem not_mem_inside {p : Char → Bool} {g : Template} (named : g.Named p) {c : Char}
    (name : p c = false) (colon : c ≠ ':') (pattern : ∀ pattern ∈ g.pattern?, c ∉ pattern) :
    c ∉ g.inside := by
  rw [inside, List.mem_append, not_or]
  constructor
  · intro member
    rw [List.all_eq_true.1 named.name c member] at name
    cases name
  · cases h : g.pattern? with
    | none => exact List.not_mem_nil
    | some q => exact List.not_mem_cons_of_ne_of_not_mem colon (pattern q h)

theorem reads_read? {p : Char → Bool} (colon : p ':' = false) (brace : p '\x7d' = false) :
    ReadsBraces (read? p) fun g inside => g.Named p ∧ inside = g.inside where
  read_iff := by
    intro prev cs g rest
    constructor
    · intro h
      obtain ⟨named, text⟩ := read?_eq_some h
      exact ⟨g.inside, ⟨named, rfl⟩, text⟩
    · rintro ⟨_, ⟨named, rfl⟩, rfl⟩
      exact read?_inside colon brace named prev rest
  closed := by
    rintro g _ ⟨named, rfl⟩
    exact not_mem_inside named brace (by decide) named.pattern

/-- Extraction reads the templates whose names are words. -/
theorem templateVariable?_eq (prev : Option Char) (cs : List Char) :
    Draft.templateVariable? prev cs =
      (read? isWordChar prev cs).map fun result => (result.1.key, result.2) := by
  rw [Draft.templateVariable?, read?]
  cases afterChar? '\x7b' cs with
  | none => rfl
  | some cs =>
    simp only [Option.bind_eq_bind, Option.bind_some, word?]
    cases run? isWordChar cs with
    | none => rfl
    | some letters =>
      obtain ⟨name, behind⟩ := letters
      simp only [Option.bind_some]
      cases afterChar? ':' behind with
      | none => cases afterChar? '\x7d' behind <;> rfl
      | some pattern => cases afterChar? '\x7d' (pattern.dropWhile (· != '\x7d')) <;> rfl

theorem reads_templateVariable? : ReadsBraces Draft.templateVariable? fun name inside =>
    ∃ g : Template, (g.Named isWordChar ∧ inside = g.inside) ∧ g.key = name where
  read_iff := by
    intro prev cs name rest
    have words := reads_read? (p := isWordChar) (by decide) (by decide)
    simp only [templateVariable?_eq, Option.map_eq_some_iff, Prod.mk.injEq]
    constructor
    · rintro ⟨⟨g, rest⟩, found, rfl, rfl⟩
      obtain ⟨inside, here, text⟩ := words.read_iff.1 found
      exact ⟨inside, ⟨g, here, rfl⟩, text⟩
    · rintro ⟨inside, ⟨g, here, rfl⟩, text⟩
      exact ⟨(g, rest), words.read_iff.2 ⟨inside, here, text⟩, rfl, rfl⟩
  closed := by
    rintro _ _ ⟨g, ⟨named, rfl⟩, -⟩
    exact not_mem_inside named (by decide) (by decide) named.pattern

def isNameChar (c : Char) : Bool := !(['/', '\x7b', '\x7d', ':'].contains c)

private theorem isNameChar_of_isWordChar {c : Char} (h : isWordChar c = true) :
    isNameChar c = true := by
  have other {d : Char} (hd : isWordChar d = false) : c ≠ d := by
    rintro rfl
    rw [h] at hd
    cases hd
  rw [isNameChar, Bool.not_eq_true', ← Bool.not_eq_true, List.contains_iff_mem]
  simp only [List.mem_cons, List.not_mem_nil, or_false, not_or]
  exact ⟨other (by decide), other (by decide), other (by decide), other (by decide)⟩

private theorem Named.of_word {g : Template} (h : g.Named isWordChar) : g.Named isNameChar where
  nonempty := h.nonempty
  name := List.all_eq_true.2 fun c member =>
    isNameChar_of_isWordChar (List.all_eq_true.1 h.name c member)
  pattern := h.pattern

theorem reads_template : ReadsBraces (read? isNameChar) fun g inside =>
    g.Named isNameChar ∧ inside = g.inside :=
  reads_read? (by decide) (by decide)

/-- What extraction finds in the place of a template: the name if it is a word, and otherwise what it
reads in the pattern and the closing brace behind it. -/
def found (g : Template) : List String :=
  if g.isWord then [g.key] else sweep Draft.templateVariable? (g.pattern?.getD [] ++ ['\x7d'])

theorem found_of_not_isWord {g : Template} (h : ¬g.isWord = true)
    (noBrace : '\x7b' ∉ g.pattern?.getD []) : g.found = [] := by
  have nothing : '\x7b' ∉ g.pattern?.getD [] ++ ['\x7d'] := by simp [noBrace]
  rw [found, if_neg h, ← List.append_nil (_ ++ ['\x7d']),
    reads_templateVariable?.sweep_append nothing, sweep, sweepFrom]

private theorem exists_inside {g : Template} (named : g.Named isNameChar) :
    ∃ front, '\x7b' ∉ front ∧ g.inside = front ++ g.pattern?.getD [] := by
  have name : '\x7b' ∉ g.name := by
    intro member
    exact absurd (List.all_eq_true.1 named.name _ member) (by decide)
  rw [inside]
  cases g.pattern? with
  | none => exact ⟨g.name, name, rfl⟩
  | some pattern => exact ⟨g.name ++ [':'], by simp [name], by simp⟩

/-- What extraction reads is a template. -/
theorem exists_of_templateVariable? {prev : Option Char} {cs rest : List Char} {name : String}
    (h : Draft.templateVariable? prev cs = some (name, rest)) : ∃ g : Template,
      g.isWord = true ∧ g.key = name ∧ read? isNameChar prev cs = some (g, rest) := by
  obtain ⟨_, ⟨g, ⟨word, rfl⟩, rfl⟩, text⟩ := reads_templateVariable?.read_iff.1 h
  exact ⟨g, word.name, rfl, reads_template.read_iff.2 ⟨g.inside, ⟨word.of_word, rfl⟩, text⟩⟩

private theorem sweep_template {g : Template} (named : g.Named isNameChar) (rest : List Char) :
    sweep Draft.templateVariable? ('\x7b' :: (g.inside ++ '\x7d' :: rest)) =
      g.found ++ sweep Draft.templateVariable? rest := by
  have narrow := reads_templateVariable?
  rw [found]
  by_cases word : g.isWord = true
  · have here : g.Named isWordChar := ⟨named.nonempty, word, named.pattern⟩
    rw [if_pos word, narrow.sweep_inside ⟨g, ⟨here, rfl⟩, rfl⟩, List.singleton_append]
  · -- Only the opening brace is stepped over, so the sweep comes to the pattern.
    obtain ⟨front, noBrace, inside⟩ := exists_inside named
    have closed : '\x7d' ∉ g.pattern?.getD [] := by
      cases h : g.pattern? with
      | none => exact List.not_mem_nil
      | some pattern => exact named.pattern pattern h
    have nothing :
        Draft.templateVariable? none ('\x7b' :: (g.inside ++ '\x7d' :: rest)) = none := by
      rw [Option.eq_none_iff_forall_ne_some]
      rintro ⟨name, rest'⟩ some'
      obtain ⟨g', word', -, read'⟩ := exists_of_templateVariable? some'
      obtain ⟨rfl, -⟩ := Prod.mk.inj (Option.some.inj (read'.symm.trans
        (reads_template.read_iff.2 ⟨g.inside, ⟨named, rfl⟩, rfl⟩)))
      exact word word'
    rw [if_neg word, narrow.sweep_cons nothing, inside, List.append_assoc,
      narrow.sweep_append noBrace, narrow.sweep_append_cons closed]

private theorem sweep_templateVariable? (cs : List Char) : sweep Draft.templateVariable? cs =
    (sweep (read? isNameChar) cs).flatMap found := by
  induction n : cs.length using Nat.strong_induction_on generalizing cs with
  | _ n ih =>
    cases cs with
    | nil => simp [sweep, sweepFrom]
    | cons c cs =>
      cases read : read? isNameChar none (c :: cs) with
      | none =>
        have nothing : Draft.templateVariable? none (c :: cs) = none := by
          rw [Option.eq_none_iff_forall_ne_some]
          rintro ⟨name, rest⟩ some'
          obtain ⟨g, -, -, read'⟩ := exists_of_templateVariable? some'
          cases read.symm.trans read'
        rw [reads_templateVariable?.sweep_cons nothing, reads_template.sweep_cons read]
        exact ih cs.length (by simp [← n]) cs rfl
      | some result =>
        obtain ⟨g, rest⟩ := result
        obtain ⟨_, ⟨named, rfl⟩, text⟩ := reads_template.read_iff.1 read
        rw [text, sweep_template named, reads_template.sweep_inside ⟨named, rfl⟩,
          List.flatMap_cons, ih rest.length ?_ rest rfl]
        simp only [← n, text, List.length_cons, List.length_append]
        omega

end Template

/-- The templates of a path, from left to right and without overlap. -/
def templates (path : String) : List Template :=
  sweep (Template.read? Template.isNameChar) path.toList

/-- Extraction goes through the templates of a path. -/
theorem templateVariables_eq (path : String) :
    Draft.templateVariables path = (templates path).flatMap Template.found :=
  Template.sweep_templateVariable? path.toList

/-- In the pattern of a name with a hyphen, the number of digits is taken for a variable. -/
example : Draft.templateVariables "/users/\x7buser-id:[0-9]\x7b4\x7d\x7d" = ["4"] := by
  cbv

/-- Templates are what stands in braces in a path. -/
theorem exists_of_mem_templates {path : String} {g : Template} (h : g ∈ templates path) :
    g.Named Template.isNameChar ∧ ∃ front rest,
      path.toList = front ++ '\x7b' :: (g.inside ++ '\x7d' :: rest) := by
  obtain ⟨front, _, rest, ⟨named, rfl⟩, text⟩ := Template.reads_template.exists_of_mem_sweep h
  exact ⟨named, front, rest, text⟩

/-- What stands in braces is a template, unless a brace in front of it is open. -/
theorem mem_templates {path : String} {g : Template} (named : g.Named Template.isNameChar)
    {front rest : List Char} (closed : ClosedBraces front)
    (text : path.toList = front ++ '\x7b' :: (g.inside ++ '\x7d' :: rest)) :
    g ∈ templates path := by
  rw [templates, text]
  exact Template.reads_template.mem_sweep closed ⟨named, rfl⟩ rest

/-- The name of a template is found exactly if it is a word. -/
theorem key_mem_templateVariables_iff {path : String} {g : Template} (h : g ∈ templates path) :
    g.key ∈ Draft.templateVariables path ↔ g.isWord = true := by
  constructor
  · intro found
    obtain ⟨-, _, -, ⟨g', ⟨word, -⟩, same⟩, -⟩ :=
      Template.reads_templateVariable?.exists_of_mem_sweep found
    have names : g'.name = g.name := String.ofList_injective same
    rw [Template.isWord, ← names]
    exact word.name
  · intro word
    rw [templateVariables_eq, List.mem_flatMap]
    exact ⟨g, h, by simp [Template.found, word]⟩

end ApiCollection
