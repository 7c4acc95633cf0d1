import ApiCollection.Endpoint.Binding
import ApiCollection.Proofs.KeywordReading
import ApiCollection.Proofs.TextPieces

/-!
# Reading texts in quotes

The readers of bindings look for something that leads to a quote, and read up to the next quote.
They do not know whether a quote opens or closes, so a text between quotes can lead them to what
stands between the quoted texts.
-/

namespace ApiCollection

namespace Text

open Java (takeWhile_stop dropWhile_stop after?_stop afterChar?_stop)

variable {α : Type}

theorem quoted?_append {text : List Char} (absent : '"' ∉ text) (nonempty : text ≠ [])
    (rest : List Char) : quoted? ('"' :: (text ++ '"' :: rest)) = some (text, rest) := by
  have other : ∀ c ∈ text, (c != '"') = true := by
    intro c member
    rw [bne_iff_ne]
    rintro rfl
    exact absent member
  have inside : (text ++ '"' :: rest).takeWhile (· != '"') = text := by
    rw [takeWhile_stop (by decide)]
    exact List.takeWhile_eq_self_iff.2 other
  have behind : (text ++ '"' :: rest).dropWhile (· != '"') = '"' :: rest := by
    rw [dropWhile_stop (by decide), List.dropWhile_eq_nil_iff.2 other, List.nil_append]
  have open' : afterChar? '"' ('"' :: (text ++ '"' :: rest)) = some (text ++ '"' :: rest) := rfl
  have close' : afterChar? '"' ('"' :: rest) = some rest := rfl
  rw [quoted?, open', Option.bind_eq_bind, Option.bind_some]
  simp only [inside, behind, close', Option.bind_some, List.isEmpty_iff,
    nonempty, if_false]

theorem quoted?_unclosed {text : List Char} (absent : '"' ∉ text) :
    quoted? ('"' :: text) = none := by
  have other : ∀ c ∈ text, (c != '"') = true := by
    intro c member
    rw [bne_iff_ne]
    rintro rfl
    exact absent member
  have open' : afterChar? '"' ('"' :: text) = some text := rfl
  rw [quoted?, open', Option.bind_eq_bind, Option.bind_some]
  simp only [List.dropWhile_eq_nil_iff.2 other]
  rfl

private theorem quoted?_of_not_mem {text : List Char} (absent : '"' ∉ text) :
    quoted? text = none := by
  cases text with
  | nil => rfl
  | cons c text =>
    rw [List.mem_cons, not_or] at absent
    have none' : afterChar? '"' (c :: text) = none := by
      simp [afterChar?, Ne.symm absent.1]
    rw [quoted?, none']
    rfl

theorem quoted?_of_ne {c : Char} (other : c ≠ '"') (text : List Char) :
    quoted? (c :: text) = none := by
  have none' : afterChar? '"' (c :: text) = none := by
    simp [afterChar?, other]
  rw [quoted?, none']
  rfl

/-- A text that is read is not empty. -/
theorem ne_nil_of_quoted? {cs text rest : List Char} (h : quoted? cs = some (text, rest)) :
    text ≠ [] := by
  simp only [quoted?, Option.bind_eq_bind, Option.bind_eq_some_iff] at h
  obtain ⟨behind, -, rest', -, h⟩ := h
  split at h
  · cases h
  · rename_i nonempty
    obtain ⟨rfl, -⟩ := Prod.mk.inj (Option.some.inj h)
    exact fun empty => nonempty (List.isEmpty_iff.2 empty)

/-- A reader for what stands before a quote reads up to the quote and no further. -/
structure QuoteLead (lead : Option Char → List Char → Option (List Char)) : Prop where
  empty : ∀ prev, lead prev [] = none
  stop : ∀ prev s rest, '"' ∉ s →
    lead prev (s ++ '"' :: rest) = (lead prev s).map (· ++ '"' :: rest)
  subset : ∀ prev s left, lead prev s = some left → left ⊆ s

/-- Whether a place of a text leads to the end of the text. -/
def leadsOut (lead : Option Char → List Char → Option (List Char)) :
    Option Char → List Char → Bool
  | _, [] => false
  | prev, c :: cs => lead prev (c :: cs) == some [] || leadsOut lead (some c) cs

def closedText? (closes : List Char → Bool) (cs : List Char) : Option String := do
  let (text, rest) ← quoted? cs
  if closes rest then some (String.ofList text) else none

def quotedBehind? (lead : Option Char → List Char → Option (List Char)) (closes : List Char → Bool)
    (prev : Option Char) (cs : List Char) : Option String :=
  (lead prev cs).bind (closedText? closes)

section QuoteLead

variable {lead : Option Char → List Char → Option (List Char)} (leads : QuoteLead lead)
  {closes : List Char → Bool} {piece : List Char} (absent : '"' ∉ piece)

include leads absent

/-- In front of a quote only a place that leads to it counts. -/
theorem findFrom_quote (prev : Option Char) (rest : List Char) :
    findFrom (quotedBehind? lead closes) prev (piece ++ '"' :: rest) =
      (if leadsOut lead prev piece then closedText? closes ('"' :: rest) else none).or
        (findFrom (quotedBehind? lead closes) (some '"') rest) := by
  induction piece generalizing prev with
  | nil =>
    have none' : lead prev ('"' :: rest) = none := by
      have stop := leads.stop prev [] rest List.not_mem_nil
      rwa [leads.empty] at stop
    rw [List.nil_append, findFrom, quotedBehind?, none']
    rfl
  | cons c piece ih =>
    have later := ih (fun member => absent (List.mem_cons_of_mem c member)) (some c)
    rw [List.cons_append, findFrom, ← List.cons_append, quotedBehind?, leads.stop _ _ _ absent,
      later, leadsOut]
    cases found : lead prev (c :: piece) with
    | none => rfl
    | some left =>
      cases left with
      | nil =>
        rw [Option.map_some, Option.bind_some, List.nil_append, beq_self_eq_true, Bool.true_or,
          if_pos rfl]
        cases closedText? closes ('"' :: rest) with
        | some text => rfl
        | none => simp
      | cons d left =>
        have other : d ≠ '"' := by
          rintro rfl
          exact absent (leads.subset _ _ _ found List.mem_cons_self)
        rw [Option.map_some, Option.bind_some, List.cons_append, closedText?, quoted?_of_ne other]
        rfl

theorem findFrom_unquoted (prev : Option Char) :
    findFrom (quotedBehind? lead closes) prev piece = none := by
  have read (prev : Option Char) {cs : List Char} (absent : '"' ∉ cs) :
      quotedBehind? lead closes prev cs = none := by
    rw [quotedBehind?]
    cases found : lead prev cs with
    | none => rfl
    | some left =>
      rw [Option.bind_some, closedText?, quoted?_of_not_mem fun member =>
        absent (leads.subset _ _ _ found member)]
      rfl
  induction piece generalizing prev with
  | nil => exact read prev absent
  | cons c piece ih =>
    rw [findFrom, read prev absent]
    exact ih (fun member => absent (List.mem_cons_of_mem c member)) (some c)

end QuoteLead

/-- A place that leads to the end is somewhere in the text. -/
theorem leadsOut_iff {lead : Option Char → List Char → Option (List Char)}
    (empty : ∀ prev, lead prev [] = none) {prev : Option Char} {cs : List Char} :
    leadsOut lead prev cs = true ↔
      ∃ front s, cs = front ++ s ∧ lead (front.getLast?.or prev) s = some [] := by
  induction cs generalizing prev with
  | nil =>
    constructor
    · intro h
      cases h
    · rintro ⟨front, s, same, found⟩
      obtain ⟨rfl, rfl⟩ := List.append_eq_nil_iff.1 same.symm
      rw [empty] at found
      cases found
  | cons c cs ih =>
    rw [leadsOut, Bool.or_eq_true, beq_iff_eq, ih]
    constructor
    · rintro (here | ⟨front, s, rfl, found⟩)
      · exact ⟨[], c :: cs, rfl, here⟩
      · refine ⟨c :: front, s, rfl, ?_⟩
        rw [List.getLast?_cons]
        cases last : front.getLast? <;> rw [last] at found <;> exact found
    · rintro ⟨front, s, same, found⟩
      cases front with
      | nil =>
        obtain rfl : s = c :: cs := same.symm
        exact .inl found
      | cons d front =>
        obtain ⟨rfl, rfl⟩ := List.cons_eq_cons.1 same
        refine .inr ⟨front, s, rfl, ?_⟩
        rw [List.getLast?_cons] at found
        cases last : front.getLast? <;> rw [last] at found <;> exact found

theorem exists_of_findFrom {read : Option Char → List Char → Option α} {prev : Option Char}
    {cs : List Char} {a : α} (h : findFrom read prev cs = some a) :
    ∃ prev' s, s <:+ cs ∧ read prev' s = some a := by
  induction cs generalizing prev with
  | nil => exact ⟨prev, [], List.suffix_rfl, h⟩
  | cons c cs ih =>
    rw [findFrom] at h
    split at h
    · rename_i found
      obtain rfl := Option.some.inj h
      exact ⟨prev, c :: cs, List.suffix_rfl, found⟩
    · obtain ⟨prev', s, suffix, found⟩ := ih h
      exact ⟨prev', s, suffix.trans (List.suffix_cons c cs), found⟩

theorem ne_empty_of_findFrom {lead : Option Char → List Char → Option (List Char)}
    {closes : List Char → Bool} {prev : Option Char} {cs : List Char} {s : String}
    (h : findFrom (quotedBehind? lead closes) prev cs = some s) : s ≠ "" := by
  obtain ⟨prev', cs', -, read⟩ := exists_of_findFrom h
  obtain ⟨left, -, closed⟩ := Option.bind_eq_some_iff.1 read
  simp only [closedText?, Option.bind_eq_bind, Option.bind_eq_some_iff] at closed
  obtain ⟨⟨text, rest⟩, quoted, closed⟩ := closed
  split at closed
  · obtain rfl := Option.some.inj closed
    exact fun empty => ne_nil_of_quoted? quoted (String.ofList_injective empty)
  · cases closed

/-- A search that reads nothing over a character finds what it finds in front of the character, or
else behind it. -/
theorem findFrom_stop {read : Option Char → List Char → Option α} {b : Char} {rest : List Char}
    (stop : ∀ prev s, read prev (s ++ b :: rest) = read prev s)
    (empty : ∀ prev, read prev [] = none) (xs : List Char) (prev : Option Char) :
    findFrom read prev (xs ++ b :: rest) =
      (findFrom read prev xs).or (findFrom read (some b) rest) := by
  induction xs generalizing prev with
  | nil =>
    have none' := stop prev []
    rw [List.nil_append, empty] at none'
    have first : findFrom read prev (b :: rest) = findFrom read (some b) rest := by
      rw [findFrom, none']
    rw [List.nil_append, first, findFrom, empty, Option.none_or]
  | cons c xs ih =>
    rw [List.cons_append, findFrom, ← List.cons_append, stop prev, ih, findFrom]
    cases read prev (c :: xs) <;> rfl

theorem findFrom_congr {read : Option Char → List Char → Option α}
    (same : ∀ prev prev' s, read prev s = read prev' s) (prev prev' : Option Char)
    (cs : List Char) : findFrom read prev cs = findFrom read prev' cs := by
  cases cs with
  | nil => exact same prev prev' []
  | cons c cs => rw [findFrom, findFrom, same prev prev']

theorem afterEquals?_stop {b : Char} (blank : isBlank b = false) (other : b ≠ '=')
    {t rest : List Char} :
    afterEquals? (t ++ b :: rest) = (afterEquals? t).map (· ++ b :: rest) := by
  rw [afterEquals?, afterEquals?, trimStart, dropWhile_stop blank, afterChar?_stop other, ← trimStart]
  cases afterChar? '=' (trimStart t) with
  | none => rfl
  | some value =>
    rw [Option.map_some, Option.map_some, Option.map_some, Option.map_some, trimStart,
      dropWhile_stop blank, ← trimStart]

/-- An equals sign is read with the blanks around it. -/
theorem afterEquals?_eq_some_iff {cs value : List Char} : afterEquals? cs = some value ↔
    ∃ before behind : List Char, before.all isBlank = true ∧ behind.all isBlank = true ∧
      value.head?.any isBlank = false ∧ cs = before ++ '=' :: (behind ++ value) := by
  constructor
  · intro h
    obtain ⟨text, sign, rfl⟩ := Option.map_eq_some_iff.1 h
    have start : cs.takeWhile isBlank ++ trimStart cs = cs := List.takeWhile_append_dropWhile
    have start' : text.takeWhile isBlank ++ trimStart text = text :=
      List.takeWhile_append_dropWhile
    refine ⟨cs.takeWhile isBlank, text.takeWhile isBlank, List.all_takeWhile, List.all_takeWhile,
      head?_trimStart text, ?_⟩
    rw [start', ← afterChar?_eq_some_iff.1 sign, start]
  · rintro ⟨before, behind, first, second, ends, rfl⟩
    have sign : ('=' :: (behind ++ value)).head?.any isBlank = false := by
      rw [List.head?_cons]
      decide
    rw [afterEquals?, trimStart_blanks first sign]
    change some (trimStart (behind ++ value)) = some value
    rw [trimStart_blanks second ends]

end Text

namespace Binding

open Text
open Java (after?_stop afterChar?_stop word?_stop dropWhile_stop)

/-- What stands behind `key =`. With `whole`, the key has to begin a word. -/
def assigning? (whole : Bool) (key : List Char) (prev : Option Char) (cs : List Char) :
    Option (List Char) :=
  if !whole || isBoundary prev then (after? key cs).bind afterEquals? else none

def calling? (_ : Option Char) (cs : List Char) : Option (List Char) := do
  let (_, rest) ← word? (← afterChar? '@' cs)
  let inside ← afterChar? '(' rest
  return trimStart inside

def closesCall (cs : List Char) : Bool := (afterChar? ')' (trimStart cs)).isSome

theorem assigned?_eq (whole : Bool) (key : List Char) :
    assigned? whole key = quotedBehind? (assigning? whole key) fun _ => true := by
  funext prev cs
  rw [assigned?, quotedBehind?, assigning?]
  cases condition : (!whole || isBoundary prev) with
  | false => rfl
  | true =>
    rw [if_pos rfl]
    change ((after? key cs).bind fun behind => (afterEquals? behind).bind fun value =>
      (quoted? value).bind fun (text, _) => some (String.ofList text)) = _
    rw [Option.bind_assoc]
    rfl

theorem bare?_eq : bare? = quotedBehind? calling? closesCall := by
  funext prev cs
  rw [bare?, quotedBehind?, calling?]
  cases afterChar? '@' cs with
  | none => rfl
  | some rest =>
    simp only [Option.bind_eq_bind, Option.bind_some]
    cases word? rest with
    | none => rfl
    | some found =>
      obtain ⟨word, rest⟩ := found
      simp only [Option.bind_some]
      cases afterChar? '(' rest with
      | none => rfl
      | some inside =>
        change _ = closedText? closesCall (trimStart inside)
        rw [Option.bind_some, closedText?]
        cases quoted? (trimStart inside) with
        | none => rfl
        | some found =>
          obtain ⟨text, behind⟩ := found
          by_cases open' : afterChar? ')' (trimStart behind) = none
          · simp [closesCall, open']
          · obtain ⟨rest, closed⟩ := Option.ne_none_iff_exists'.1 open'
            simp [closesCall, closed]

private theorem afterEquals?_subset {cs value : List Char} (h : afterEquals? cs = some value) :
    value ⊆ cs := by
  obtain ⟨before, behind, -, -, -, rfl⟩ := afterEquals?_eq_some_iff.1 h
  exact fun c member => by simp [member]

theorem assigning?_nil {whole : Bool} {key : List Char} (nonempty : key ≠ [])
    (prev : Option Char) : assigning? whole key prev [] = none := by
  obtain ⟨c, rest, rfl⟩ := List.exists_cons_of_ne_nil nonempty
  rw [assigning?]
  split <;> rfl

theorem quoteLead_assigning (whole : Bool) {key : List Char} (absent : '"' ∉ key)
    (nonempty : key ≠ []) : QuoteLead (assigning? whole key) where
  empty := assigning?_nil nonempty
  stop prev s rest _ := by
    rw [assigning?, assigning?, after?_stop absent]
    split
    · cases after? key s with
      | none => rfl
      | some behind =>
        rw [Option.map_some, Option.bind_some, Option.bind_some,
          afterEquals?_stop (by decide) (by decide)]
    · rfl
  subset prev s left h := by
    rw [assigning?] at h
    split at h
    · obtain ⟨behind, found, h⟩ := Option.bind_eq_some_iff.1 h
      rw [after?_eq_some_iff.1 found]
      exact List.Subset.trans (afterEquals?_subset h) (List.subset_append_right _ _)
    · cases h

theorem quoteLead_calling : QuoteLead calling? where
  empty prev := rfl
  stop prev s rest _ := by
    rw [calling?, calling?, afterChar?_stop (by decide)]
    cases afterChar? '@' s with
    | none => rfl
    | some behind =>
      simp only [Option.map_some, Option.bind_eq_bind, Option.bind_some]
      rw [word?_stop (by decide)]
      cases word? behind with
      | none => rfl
      | some found =>
        obtain ⟨word, behind⟩ := found
        simp only [Option.map_some, Option.bind_some]
        rw [afterChar?_stop (by decide)]
        cases afterChar? '(' behind with
        | none => rfl
        | some inside =>
          change some (trimStart (inside ++ '"' :: rest)) = some (trimStart inside ++ '"' :: rest)
          rw [trimStart, dropWhile_stop (by decide), ← trimStart]
  subset prev s left h := by
    simp only [calling?, Option.bind_eq_bind, Option.bind_eq_some_iff, Option.pure_def,
      Option.some.injEq] at h
    obtain ⟨behind, sign, ⟨word, rest⟩, found, inside, paren, rfl⟩ := h
    obtain rfl : rest = '(' :: inside := afterChar?_eq_some_iff.1 paren
    rw [afterChar?_eq_some_iff.1 sign, (word?_eq_some found).1]
    intro c member
    have inside' := (suffix_trimStart inside).subset member
    simp [inside']

/-- Whether a text ends like an assignment of a key. -/
def endsAssigning (whole : Bool) (key cs : List Char) : Bool :=
  leadsOut (assigning? whole key) none cs

theorem leadsOut_assigning_iff {whole : Bool} {key : List Char} (nonempty : key ≠ [])
    {prev : Option Char} {cs : List Char} :
    leadsOut (assigning? whole key) prev cs = true ↔
      ∃ front before behind : List Char, before.all isBlank = true ∧ behind.all isBlank = true ∧
        cs = front ++ (key ++ (before ++ '=' :: behind)) ∧
        (!whole || isBoundary (front.getLast?.or prev)) = true := by
  rw [leadsOut_iff (assigning?_nil nonempty)]
  constructor
  · rintro ⟨front, s, rfl, found⟩
    rw [assigning?] at found
    split at found
    · rename_i boundary
      obtain ⟨rest, start, found⟩ := Option.bind_eq_some_iff.1 found
      obtain ⟨before, behind, first, second, -, rfl⟩ := afterEquals?_eq_some_iff.1 found
      rw [after?_eq_some_iff.1 start, List.append_nil]
      exact ⟨front, before, behind, first, second, rfl, boundary⟩
    · cases found
  · rintro ⟨front, before, behind, first, second, rfl, boundary⟩
    refine ⟨front, _, rfl, ?_⟩
    have sign : afterEquals? (before ++ '=' :: behind) = some [] :=
      afterEquals?_eq_some_iff.2 ⟨before, behind, first, second, rfl, by rw [List.append_nil]⟩
    rw [assigning?, if_pos boundary, after?_eq_some_iff.2 rfl, Option.bind_some, sign]

/-- In front of a quote stands the same as in front of the text. -/
theorem leadsOut_assigning_quote {whole : Bool} {key : List Char} (nonempty : key ≠ [])
    (cs : List Char) :
    leadsOut (assigning? whole key) (some '"') cs = endsAssigning whole key cs := by
  have same (front : List Char) :
      isBoundary (front.getLast?.or (some '"')) = isBoundary (front.getLast?.or none) := by
    cases front.getLast? with
    | none => decide
    | some c => rfl
  rw [Bool.eq_iff_iff, endsAssigning, leadsOut_assigning_iff nonempty,
    leadsOut_assigning_iff nonempty]
  simp only [same]

def truthText (holds : Bool) : List Char := if holds then "true".toList else "false".toList

private theorem startsWith_stop {b : Char} {word : List Char} (absent : b ∉ word)
    (t rest : List Char) :
    startsWith word (t ++ b :: rest) = startsWith word t := by
  rw [startsWith, startsWith, after?_stop absent, Option.isSome_map]

theorem requirement?_quote (prev : Option Char) (s rest : List Char) :
    requirement? prev (s ++ '"' :: rest) = requirement? prev s := by
  have required : '"' ∉ "required".toList := by decide
  rw [requirement?, requirement?, after?_stop required]
  cases after? "required".toList s with
  | none => rfl
  | some behind =>
    simp only [Option.map_some, Option.bind_eq_bind, Option.bind_some]
    rw [afterEquals?_stop (by decide) (by decide)]
    cases afterEquals? behind with
    | none => rfl
    | some value =>
      simp only [Option.map_some, Option.bind_some]
      rw [startsWith_stop (by decide), startsWith_stop (by decide)]

theorem requirement?_assigned {before behind : List Char} (first : before.all isBlank = true)
    (second : behind.all isBlank = true) (prev : Option Char) (holds : Bool) (rest : List Char) :
    requirement? prev ("required".toList ++
      (before ++ '=' :: (behind ++ (truthText holds ++ rest)))) = some holds := by
  have start : (truthText holds ++ rest).head?.any isBlank = false := by
    cases holds <;> rfl
  have sign : afterEquals? (before ++ '=' :: (behind ++ (truthText holds ++ rest))) =
      some (truthText holds ++ rest) :=
    afterEquals?_eq_some_iff.2 ⟨before, behind, first, second, start, rfl⟩
  rw [requirement?, after?_eq_some_iff.2 rfl]
  simp only [Option.bind_eq_bind, Option.bind_some, sign]
  cases holds <;> rfl

theorem exists_of_requirement? {prev : Option Char} {cs : List Char} {holds : Bool}
    (h : requirement? prev cs = some holds) :
    ∃ behind value, cs = "required".toList ++ behind ∧ afterEquals? behind = some value ∧
      value ≠ [] := by
  simp only [requirement?, Option.bind_eq_bind, Option.bind_eq_some_iff] at h
  obtain ⟨behind, start, value, sign, h⟩ := h
  refine ⟨behind, value, after?_eq_some_iff.1 start, sign, ?_⟩
  rintro rfl
  cases h

/-- What is read of a truth value holds an equals sign. -/
theorem findFrom_requirement?_eq_none {cs : List Char} (absent : '=' ∉ cs) (prev : Option Char) :
    findFrom requirement? prev cs = none := by
  cases found : findFrom requirement? prev cs with
  | none => rfl
  | some holds =>
    obtain ⟨prev', s, suffix, read⟩ := exists_of_findFrom found
    obtain ⟨behind, value, rfl, sign, -⟩ := exists_of_requirement? read
    obtain ⟨before, behind', -, -, -, rfl⟩ := afterEquals?_eq_some_iff.1 sign
    exact absurd (suffix.subset (by simp)) absent

end Binding

end ApiCollection
