import ApiCollection.Proofs.DirectiveLines
import ApiCollection.Proofs.QuotedReading

/-!
# Written binding directives

A binding directive has a single string or attributes in any order as its arguments, with any blanks
between the parts. What it says is read again from its text, by searches that take a string for an
attribute when it looks like one.
-/

namespace ApiCollection

open Text Java

namespace Binding

/-- The directives that can have a name for the parameter. -/
inductive Kind where
  | path
  | query
  | header
  deriving DecidableEq

def Kind.word : Kind → List Char
  | path => "PathVariable".toList
  | query => "RequestParam".toList
  | header => "RequestHeader".toList

def Kind.location : Kind → Location
  | path => .path
  | query => .query
  | header => .header

inductive Key where
  | value
  | name
  | default
  deriving DecidableEq

def Key.word : Key → List Char
  | value => "value".toList
  | name => "name".toList
  | default => "defaultValue".toList

/-- Whether the attribute is looked for at the beginning of a word only. -/
def Key.isWhole : Key → Bool
  | value => true
  | name => true
  | default => false

inductive Attribute where
  | text (key : Key) (text : List Char)
  | required (holds : Bool)
  deriving DecidableEq

def Attribute.key? : Attribute → Option Key
  | text key _ => some key
  | required _ => none

inductive Arguments where
  | positional (text : List Char)
  | attributes (attributes : List Attribute)

def texts : List Attribute → List (List Char)
  | [] => []
  | .text _ t :: rest => t :: texts rest
  | .required _ :: rest => texts rest

def textOf? (key : Key) : List Attribute → Option (List Char)
  | [] => none
  | .text k t :: rest => if k = key then some t else textOf? key rest
  | .required _ :: rest => textOf? key rest

end Binding

open Binding

/-- A binding directive: the qualifier of its name with the dot behind it, and its arguments with the
blanks before the parenthesis. -/
structure WrittenBinding where
  qualifier : List Char
  kind : Kind
  arguments : Option (List Char × Arguments)

namespace WrittenBinding

def attributes (w : WrittenBinding) : List Attribute :=
  match w.arguments with
  | some (_, .attributes as) => as
  | _ => []

def positional? (w : WrittenBinding) : Option (List Char) :=
  match w.arguments with
  | some (_, .positional t) => some t
  | _ => none

/-- The text that names the parameter. -/
def naming? (w : WrittenBinding) : Option (List Char) :=
  (textOf? .value w.attributes).or ((textOf? .name w.attributes).or w.positional?)

/-- The binding that a directive says. -/
def meaning (w : WrittenBinding) (p : Java.Parameter) : Binding where
  name := w.naming?.elim p.name String.ofList
  type := p.type
  location := w.kind.location
  required := w.kind == .path || !w.attributes.contains (.required false)
  default := if w.kind == .path then none
    else ((textOf? .default w.attributes).filter fun t => !t.isEmpty).map String.ofList

end WrittenBinding

namespace Binding

/-- The blanks of an attribute: in front of it, around its equals sign and behind it. -/
structure Gaps where
  front : List Char
  before : List Char
  behind : List Char
  back : List Char

def Gaps.isBlank (g : Gaps) : Bool :=
  g.front.all Text.isBlank && g.before.all Text.isBlank && g.behind.all Text.isBlank &&
    g.back.all Text.isBlank

def assignmentText (g : Gaps) (word : List Char) : List Char :=
  word ++ (g.before ++ '=' :: g.behind)

def quotedText (t : List Char) : List Char := '"' :: (t ++ ['"'])

def Attribute.written (g : Gaps) : Attribute → List Char
  | text key t => assignmentText g key.word ++ (quotedText t ++ g.back)
  | required holds => assignmentText g "required".toList ++ (truthText holds ++ g.back)

def separator (g : Gaps) (rest : List Attribute) : List Char :=
  if rest.isEmpty then [] else ',' :: g.front

def attributesText (gaps : Nat → Gaps) : List Attribute → List Char
  | [] => []
  | a :: rest =>
    a.written (gaps 0) ++ (separator (gaps 1) rest ++ attributesText (fun n => gaps (n + 1)) rest)

def Arguments.written (gaps : Nat → Gaps) : Arguments → List Char
  | positional t => (gaps 0).front ++ (quotedText t ++ (gaps 0).back)
  | attributes as => (gaps 0).front ++ attributesText gaps as

end Binding

namespace WrittenBinding

/-- The directive as it is written with some blanks. -/
def written (w : WrittenBinding) (gaps : Nat → Gaps) : Written where
  qualified := w.qualifier ++ w.kind.word
  arguments := w.arguments.map fun (space, arguments) => (space, arguments.written gaps)
  gap := []

/-- A directive is well-formed when its qualifier ends with a dot, its strings have no quotes and no
backslashes, and no attribute is given twice. -/
structure WellFormed (w : WrittenBinding) : Prop where
  characters : w.qualifier.all isNameChar = true
  qualifier : w.qualifier = [] ∨ w.qualifier.getLast? = some '.'
  space : ∀ space arguments, w.arguments = some (space, arguments) →
    space.all isAsciiBlank = true
  positional : ∀ t, w.positional? = some t → '"' ∉ t ∧ '\\' ∉ t
  texts : ∀ t ∈ Binding.texts w.attributes, '"' ∉ t ∧ '\\' ∉ t
  distinct : (w.attributes.map Attribute.key?).Nodup

end WrittenBinding

namespace Binding

def found? (key : Key) : List Attribute → Option (List Char)
  | [] => none
  | .text k t :: rest => if k = key ∧ t ≠ [] then some t else found? key rest
  | .required _ :: rest => found? key rest

/-- Whether the search for an attribute is not misled: in front of its text, no text with another one
behind it ends like an assignment of the attribute. -/
def isClear (key : Key) : List Attribute → Bool
  | [] => true
  | .text k t :: rest =>
    (k == key && !t.isEmpty) ||
      (!(endsAssigning key.isWhole key.word t && !(texts rest).isEmpty) && isClear key rest)
  | .required _ :: rest => isClear key rest

/-- The first truth value that is found for `required`, be it in a text or as an attribute. -/
def heeded? : List Attribute → Option Bool
  | [] => none
  | .text _ t :: rest => (find? requirement? t).or (heeded? rest)
  | .required holds :: _ => some holds

end Binding

namespace WrittenBinding

/-- Whether the name is read: a string that is the only argument has to follow a name without
qualifier and blanks, no text may be empty, and the searches may not be misled. -/
def isNamed (w : WrittenBinding) : Bool :=
  match w.arguments with
  | none => true
  | some (space, .positional t) => w.qualifier.isEmpty && space.isEmpty && !t.isEmpty
  | some (_, .attributes as) => w.naming? != some [] && isClear .value as &&
    ((textOf? .value as).isSome || isClear .name as)

def isDetailed (w : WrittenBinding) : Bool :=
  match w.arguments with
  | none => true
  | some (_, .positional t) => (find? requirement? t).getD true
  | some (_, .attributes as) =>
    isClear .default as && (heeded? as).getD true == !as.contains (.required false)

def isHeeded (w : WrittenBinding) : Bool := w.isNamed && (w.kind == .path || w.isDetailed)

end WrittenBinding

namespace Binding

theorem Gaps.isBlank_iff {g : Gaps} : g.isBlank = true ↔ g.front.all Text.isBlank = true ∧
    g.before.all Text.isBlank = true ∧ g.behind.all Text.isBlank = true ∧
      g.back.all Text.isBlank = true := by
  simp [Gaps.isBlank, and_assoc]

theorem Key.word_ne_nil (key : Key) : key.word ≠ [] := by cases key <;> decide

def outsideSigns : List Char := ['"', '@']

theorem of_mem_outsideSigns {c : Char} (h : c ∈ outsideSigns) :
    Text.isBlank c = false ∧ c ≠ '=' ∧ c ≠ ',' := by
  simp only [outsideSigns, List.mem_cons, List.not_mem_nil, or_false] at h
  obtain rfl | rfl := h <;> decide

theorem Key.not_mem_word {c : Char} (h : c ∈ outsideSigns) (key : Key) : c ∉ key.word := by
  simp only [outsideSigns, List.mem_cons, List.not_mem_nil, or_false] at h
  obtain rfl | rfl := h <;> cases key <;> decide

theorem Key.quoteLead (key : Key) : QuoteLead (assigning? key.isWhole key.word) :=
  quoteLead_assigning key.isWhole (key.not_mem_word List.mem_cons_self) key.word_ne_nil

/-- No name of an attribute is the end of another one. -/
theorem Key.eq_of_suffix {k key : Key} (h : key.word <:+ k.word) : k = key := by
  revert h
  cases k <;> cases key <;> decide

private theorem Key.getLast?_word (key : Key) :
    ∃ c, key.word.getLast? = some c ∧ Text.isBlank c = false := by
  cases key <;> exact ⟨_, rfl, by decide⟩

/-- What stands before the last equals sign is determined. -/
theorem front_of_equals {xs ys behind behind' : List Char} (blank : behind.all Text.isBlank = true)
    (blank' : behind'.all Text.isBlank = true) (same : xs ++ '=' :: behind = ys ++ '=' :: behind') :
    xs = ys := by
  have cut (xs : List Char) {behind : List Char} (blank : behind.all Text.isBlank = true) :
      cutAtChar? '=' (xs ++ '=' :: behind).reverse = some (behind.reverse, xs.reverse) := by
    rw [List.reverse_append, List.reverse_cons, List.append_assoc, List.singleton_append]
    exact cutAtChar?_append (fun member =>
      not_mem_of_all blank (by decide) (List.mem_reverse.1 member)) _
  have reversed := cut xs blank
  rw [same, cut ys blank', Option.some.injEq, Prod.mk.injEq] at reversed
  exact List.reverse_injective reversed.2.symm

/-- An assignment of one attribute is not read as an assignment of another one. -/
theorem leadsOut_assignment {g : Gaps} (blank : g.isBlank = true) (key k : Key)
    {prev : Option Char} {front : List Char}
    (boundary : isBoundary (front.getLast?.or prev) = true) :
    leadsOut (assigning? key.isWhole key.word) prev (front ++ assignmentText g k.word) =
      decide (k = key) := by
  obtain ⟨-, before, behind, -⟩ := Gaps.isBlank_iff.1 blank
  rw [Bool.eq_iff_iff, decide_eq_true_eq, leadsOut_assigning_iff key.word_ne_nil]
  constructor
  · rintro ⟨front', before', behind', first, second, same, -⟩
    have trimmed (front : List Char) (key : Key) {before : List Char}
        (blank : before.all Text.isBlank = true) :
        trimEnd (front ++ (key.word ++ before)) = front ++ key.word := by
      obtain ⟨c, last, solid⟩ := key.getLast?_word
      rw [← List.append_assoc, trimEnd_blanks blank]
      exact trimEnd_of_getLast? (by rw [List.getLast?_append, last]; rfl) solid
    have whole : front ++ (k.word ++ g.before) = front' ++ (key.word ++ before') := by
      apply front_of_equals behind second
      simpa [assignmentText] using same
    have words : front ++ k.word = front' ++ key.word := by
      rw [← trimmed front k before, whole, trimmed front' key first]
    have ends : key.word <:+ front ++ k.word := words ▸ List.suffix_append front' key.word
    rcases List.suffix_or_suffix_of_suffix ends (List.suffix_append front k.word) with h | h
    · exact Key.eq_of_suffix h
    · exact (Key.eq_of_suffix h).symm
  · rintro rfl
    exact ⟨front, g.before, g.behind, before, behind, rfl, by rw [boundary, Bool.or_true]⟩

def closingText (gaps : Nat → Gaps) (as : List Attribute) : List Char :=
  attributesText gaps as ++ [')']

theorem closingText_text (gaps : Nat → Gaps) (key : Key) (t : List Char) (rest : List Attribute)
    (front : List Char) : front ++ closingText gaps (.text key t :: rest) =
      (front ++ assignmentText (gaps 0) key.word) ++ '"' :: (t ++ '"' ::
        (((gaps 0).back ++ separator (gaps 1) rest) ++
          closingText (fun n => gaps (n + 1)) rest)) := by
  simp [closingText, attributesText, Attribute.written, quotedText]

theorem closingText_required (gaps : Nat → Gaps) (holds : Bool) (rest : List Attribute)
    (front : List Char) : front ++ closingText gaps (.required holds :: rest) =
      (front ++ (assignmentText (gaps 0) "required".toList ++ (truthText holds ++
        ((gaps 0).back ++ separator (gaps 1) rest)))) ++
          closingText (fun n => gaps (n + 1)) rest := by
  simp [closingText, attributesText, Attribute.written]

theorem exists_closingText (gaps : Nat → Gaps) (as : List Attribute) :
    ∃ c rest, closingText gaps as = c :: rest ∧ Text.isBlank c = false ∧ c ≠ '"' := by
  cases as with
  | nil => exact ⟨_, _, rfl, by decide, by decide⟩
  | cons a rest =>
    cases a with
    | text k t => cases k <;> exact ⟨_, _, rfl, by decide, by decide⟩
    | required holds => exact ⟨_, _, rfl, by decide, by decide⟩

section Gaps

variable {gaps : Nat → Gaps} (blank : ∀ n, (gaps n).isBlank = true)

include blank

theorem not_mem_assignment {c : Char} (h : c ∈ outsideSigns) {word : List Char}
    (absent : c ∉ word) (n : Nat) : c ∉ assignmentText (gaps n) word := by
  obtain ⟨solid, equals, -⟩ := of_mem_outsideSigns h
  obtain ⟨-, before, behind, -⟩ := Gaps.isBlank_iff.1 (blank n)
  have before' : c ∉ (gaps n).before := not_mem_of_all before solid
  have behind' : c ∉ (gaps n).behind := not_mem_of_all behind solid
  simp [assignmentText, absent, before', behind', equals]

theorem not_mem_behind {c : Char} (solid : Text.isBlank c = false) (comma : c ≠ ',')
    (rest : List Attribute) : c ∉ (gaps 0).back ++ separator (gaps 1) rest := by
  have back : c ∉ (gaps 0).back :=
    not_mem_of_all (Gaps.isBlank_iff.1 (blank 0)).2.2.2 solid
  have front : c ∉ (gaps 1).front := not_mem_of_all (Gaps.isBlank_iff.1 (blank 1)).1 solid
  rw [List.mem_append, not_or, separator]
  refine ⟨back, ?_⟩
  split
  · exact List.not_mem_nil
  · rw [List.mem_cons, not_or]
    exact ⟨comma, front⟩

omit blank in
/-- Behind a sign and blanks a word can begin. -/
theorem boundary_blanks {c : Char} (sign : isWordChar c = false) {blanks : List Char}
    (h : blanks.all Text.isBlank = true) (front : List Char) (prev : Option Char) :
    isBoundary ((front ++ c :: blanks).getLast?.or prev) = true := by
  rw [List.getLast?_append, List.getLast?_cons]
  cases last : blanks.getLast? with
  | none => simp [isBoundary, sign]
  | some d =>
    have solid := List.all_eq_true.1 h d (List.mem_of_getLast? last)
    simp [isBoundary, (of_isBlank solid).1]

/-- An attribute begins a word. -/
theorem boundary_separator {rest : List Attribute} (more : rest ≠ []) (front : List Char)
    (prev : Option Char) :
    isBoundary ((front ++ ((gaps 0).back ++ separator (gaps 1) rest)).getLast?.or prev) = true := by
  have separated : separator (gaps 1) rest = ',' :: (gaps 1).front := by
    rw [separator, if_neg (by simpa using more)]
  rw [separated, ← List.append_assoc]
  exact boundary_blanks (by decide) (Gaps.isBlank_iff.1 (blank 1)).1 _ prev

theorem not_mem_required {c : Char} (h : c ∈ outsideSigns) (holds : Bool)
    (rest : List Attribute) : c ∉ assignmentText (gaps 0) "required".toList ++
      (truthText holds ++ ((gaps 0).back ++ separator (gaps 1) rest)) := by
  obtain ⟨solid, -, comma⟩ := of_mem_outsideSigns h
  have words : c ∉ "required".toList ∧ c ∉ truthText holds := by
    simp only [outsideSigns, List.mem_cons, List.not_mem_nil, or_false] at h
    obtain rfl | rfl := h <;> cases holds <;> decide
  rw [List.mem_append, not_or, List.mem_append, not_or]
  exact ⟨not_mem_assignment blank h words.1 0, words.2, not_mem_behind blank solid comma rest⟩

theorem quote_not_mem_closing {as : List Attribute} (h : texts as = []) :
    '"' ∉ closingText gaps as := by
  induction as generalizing gaps with
  | nil => simp [closingText, attributesText]
  | cons a rest ih =>
    cases a with
    | text key t => cases h
    | required holds =>
      have split := closingText_required gaps holds rest []
      rw [List.nil_append, List.nil_append] at split
      rw [split, List.mem_append, not_or]
      exact ⟨not_mem_required blank List.mem_cons_self holds rest, ih (fun n => blank (n + 1)) h⟩

/-- Behind the closing quote of a text stands what separates it from the next one. -/
theorem exists_gap {as : List Attribute} (h : texts as ≠ []) {front : List Char}
    (absent : '"' ∉ front) : ∃ gap rest, quoted? ('"' :: (front ++ closingText gaps as)) =
      some (gap, rest) ∧ front.length ≤ gap.length := by
  induction as generalizing gaps front with
  | nil => exact absurd rfl h
  | cons a rest ih =>
    cases a with
    | text key t =>
      have absent' : '"' ∉ front ++ assignmentText (gaps 0) key.word := by
        rw [List.mem_append, not_or]
        exact ⟨absent, not_mem_assignment blank List.mem_cons_self (key.not_mem_word List.mem_cons_self) 0⟩
      have read := quoted?_append absent' (by simp [assignmentText, key.word_ne_nil])
        (t ++ '"' :: (((gaps 0).back ++ separator (gaps 1) rest) ++
          closingText (fun n => gaps (n + 1)) rest))
      rw [closingText_text]
      exact ⟨_, _, read, (List.prefix_append front (assignmentText (gaps 0) key.word)).length_le⟩
    | required holds =>
      rw [closingText_required]
      have absent' := not_mem_required blank List.mem_cons_self holds rest
      obtain ⟨gap, rest', read, longer⟩ := ih (fun n => blank (n + 1)) h
        (fun member => (List.mem_append.1 member).elim absent absent')
      exact ⟨gap, rest', read, (List.prefix_append front _).length_le.trans longer⟩

end Gaps

private theorem closedText?_append {text : List Char} (absent : '"' ∉ text) (rest : List Char) :
    closedText? (fun _ => true) ('"' :: (text ++ '"' :: rest)) =
      if text = [] then none else some (String.ofList text) := by
  split
  · rename_i empty
    rw [empty]
    rfl
  · rename_i nonempty
    rw [closedText?, quoted?_append absent nonempty]
    rfl

theorem closedText?_unclosed {text : List Char} (absent : '"' ∉ text) (closes : List Char → Bool) :
    closedText? closes ('"' :: text) = none := by
  rw [closedText?, quoted?_unclosed absent]
  rfl

section Texts

variable {gaps : Nat → Gaps} (blank : ∀ n, (gaps n).isBlank = true) {rest : List Attribute}

include blank

/-- A search for an attribute at a text gives that text if it is the one, or else what follows it if
it ends like an assignment, or else what a search behind it gives. -/
theorem findFrom_text (key : Key) {k : Key} {t : List Char} (unquoted : '"' ∉ t)
    {prev : Option Char} {front : List Char} (absent : '"' ∉ front)
    (boundary : isBoundary (front.getLast?.or prev) = true) :
    findFrom (quotedBehind? (assigning? key.isWhole key.word) fun _ => true) prev
        (front ++ closingText gaps (.text k t :: rest)) =
      (if k = key ∧ t ≠ [] then some (String.ofList t) else none).or
        ((if endsAssigning key.isWhole key.word t then closedText? (fun _ => true)
            ('"' :: (((gaps 0).back ++ separator (gaps 1) rest) ++
              closingText (fun n => gaps (n + 1)) rest)) else none).or
          (findFrom (quotedBehind? (assigning? key.isWhole key.word) fun _ => true) (some '"')
            (((gaps 0).back ++ separator (gaps 1) rest) ++
              closingText (fun n => gaps (n + 1)) rest))) := by
  have absent' : '"' ∉ front ++ assignmentText (gaps 0) k.word := by
    rw [List.mem_append, not_or]
    exact ⟨absent, not_mem_assignment blank List.mem_cons_self (k.not_mem_word List.mem_cons_self) 0⟩
  have here : (if decide (k = key) = true then
      (if t = [] then none else some (String.ofList t)) else none) =
        if k = key ∧ t ≠ [] then some (String.ofList t) else none := by
    by_cases same : k = key <;> by_cases empty : t = [] <;> simp [same, empty]
  rw [closingText_text, findFrom_quote key.quoteLead absent',
    leadsOut_assignment (blank 0) key k boundary, closedText?_append unquoted, findFrom_quote key.quoteLead unquoted,
    leadsOut_assigning_quote key.word_ne_nil, here]

/-- Behind the last text stands no quote. -/
theorem quote_not_mem_last (last : texts rest = []) :
    '"' ∉ ((gaps 0).back ++ separator (gaps 1) rest) ++ closingText (fun n => gaps (n + 1)) rest := by
  rw [List.mem_append, not_or]
  exact ⟨not_mem_behind blank (by decide) (by decide) rest,
    quote_not_mem_closing (fun n => blank (n + 1)) last⟩

/-- Behind a text that is not the last one, what separates it from the next one is closed. -/
theorem exists_closedText? {length : Nat} (wide : ∀ n, length ≤ (gaps n).front.length)
    (more : texts rest ≠ []) : ∃ gap : List Char, length ≤ gap.length ∧
    closedText? (fun _ => true) ('"' :: (((gaps 0).back ++ separator (gaps 1) rest) ++
      closingText (fun n => gaps (n + 1)) rest)) = some (String.ofList gap) := by
  have behind : '"' ∉ (gaps 0).back ++ separator (gaps 1) rest :=
    not_mem_behind blank (by decide) (by decide) rest
  obtain ⟨gap, rest', read, longer⟩ := exists_gap (fun n => blank (n + 1)) more behind
  have nonempty : rest ≠ [] := by
    rintro rfl
    exact more rfl
  have long : length ≤ ((gaps 0).back ++ separator (gaps 1) rest).length := by
    have front := wide 1
    rw [separator, if_neg (by simpa using nonempty), List.length_append, List.length_cons]
    omega
  refine ⟨gap, long.trans longer, ?_⟩
  rw [closedText?, read]
  rfl

end Texts

/-- A search for an attribute finds its text, or else what separates two texts. -/
theorem findFrom_closing (key : Key) {gaps : Nat → Gaps} (blank : ∀ n, (gaps n).isBlank = true)
    {length : Nat} (wide : ∀ n, length ≤ (gaps n).front.length) {as : List Attribute}
    (quotes : ∀ t ∈ texts as, '"' ∉ t) {prev : Option Char} {front : List Char}
    (absent : '"' ∉ front) (boundary : as ≠ [] → isBoundary (front.getLast?.or prev) = true) :
    (isClear key as = true →
      findFrom (assigned? key.isWhole key.word) prev (front ++ closingText gaps as) =
        (found? key as).map String.ofList) ∧
    (isClear key as = false → ∃ gap : List Char, length ≤ gap.length ∧
      findFrom (assigned? key.isWhole key.word) prev (front ++ closingText gaps as) =
        some (String.ofList gap)) := by
  rw [assigned?_eq]
  induction as generalizing gaps prev front with
  | nil =>
    have none' : '"' ∉ front ++ closingText gaps [] := by
      rw [List.mem_append, not_or]
      exact ⟨absent, quote_not_mem_closing blank rfl⟩
    refine ⟨fun _ => ?_, nofun⟩
    rw [findFrom_unquoted key.quoteLead none']
    rfl
  | cons a rest ih =>
    have blank' (n : Nat) : (gaps (n + 1)).isBlank = true := blank (n + 1)
    have wide' (n : Nat) : length ≤ (gaps (n + 1)).front.length := wide (n + 1)
    cases a with
    | required holds =>
      rw [closingText_required]
      refine ih blank' wide' quotes ?_ fun more => ?_
      · rw [List.mem_append, not_or]
        exact ⟨absent, not_mem_required blank List.mem_cons_self holds rest⟩
      · have split : front ++ (assignmentText (gaps 0) "required".toList ++ (truthText holds ++
            ((gaps 0).back ++ separator (gaps 1) rest))) =
            (front ++ (assignmentText (gaps 0) "required".toList ++ truthText holds)) ++
              ((gaps 0).back ++ separator (gaps 1) rest) := by simp
        rw [split]
        exact boundary_separator blank more _ _
    | text k t =>
      rw [texts, List.forall_mem_cons] at quotes
      have behind : '"' ∉ (gaps 0).back ++ separator (gaps 1) rest :=
        not_mem_behind blank (by decide) (by decide) rest
      obtain ⟨clear, misled⟩ := ih blank' wide' quotes.2 behind
        fun more => @boundary_separator gaps blank rest more [] (some '"')
      rw [findFrom_text blank key quotes.1 absent (boundary (List.cons_ne_nil _ _)), isClear, found?]
      by_cases hit : k = key ∧ t ≠ []
      · have clear' : (k == key && !t.isEmpty) = true := by simpa using hit
        rw [if_pos hit, if_pos hit, clear', Option.some_or]
        exact ⟨fun _ => rfl, nofun⟩
      have other : (k == key && !t.isEmpty) = false := by simpa using hit
      rw [if_neg hit, if_neg hit, other, Bool.false_or, Option.none_or]
      cases ends : endsAssigning key.isWhole key.word t with
      | false => exact ⟨clear, misled⟩
      | true =>
        rw [if_pos rfl, Bool.true_and, Bool.not_not]
        by_cases last : texts rest = []
        · rw [closedText?_unclosed (quote_not_mem_last blank last), last]
          exact ⟨clear, misled⟩
        · obtain ⟨gap, long, read⟩ := exists_closedText? blank wide last
          rw [read, List.isEmpty_eq_false_iff.2 last]
          exact ⟨nofun, fun _ => ⟨gap, long, rfl⟩⟩

private theorem equals_not_mem_word (key : Key) : '=' ∉ key.word := by cases key <;> decide

/-- The assignment of a text is none of a truth value. -/
theorem findFrom_requirement?_assignment {g : Gaps} (blank : g.isBlank = true) (key : Key)
    {front : List Char} (absent : '=' ∉ front) (prev : Option Char) :
    findFrom requirement? prev (front ++ assignmentText g key.word) = none := by
  obtain ⟨-, before, behind, -⟩ := Gaps.isBlank_iff.1 blank
  cases found : findFrom requirement? prev (front ++ assignmentText g key.word) with
  | none => rfl
  | some holds =>
    obtain ⟨prev', s, ⟨front', split⟩, read⟩ := exists_of_findFrom found
    obtain ⟨rest, value, rfl, sign, nonempty⟩ := exists_of_requirement? read
    obtain ⟨before', behind', -, -, start, rfl⟩ := afterEquals?_eq_some_iff.1 sign
    have only : '=' ∉ front ++ (key.word ++ g.before) := by
      have before' : '=' ∉ g.before := not_mem_of_all before (by decide)
      simp [absent, equals_not_mem_word key, before']
    have same : front ++ (key.word ++ g.before) ++ '=' :: g.behind =
        (front' ++ ("required".toList ++ before')) ++ '=' :: (behind' ++ value) := by
      simpa [assignmentText] using split.symm
    have rest := ((List.append_cons_inj_of_notMem only (not_mem_of_all behind (by decide))).1 same).2.2
    obtain ⟨c, value, rfl⟩ := List.exists_cons_of_ne_nil nonempty
    have blank' : Text.isBlank c = true := List.all_eq_true.1 behind c (by rw [rest]; simp)
    rw [List.head?_cons, Option.any_some, blank'] at start
    cases start

/-- The truth value that is assigned behind a text without equals signs is found. -/
theorem findFrom_requirement?_assigned {g : Gaps} (blank : g.isBlank = true) {front : List Char}
    (absent : '=' ∉ front) (boundary : isBoundary front.getLast? = true) (prev : Option Char)
    (holds : Bool) (rest : List Char) :
    findFrom requirement? prev (front ++
      (assignmentText g "required".toList ++ (truthText holds ++ rest))) = some holds := by
  obtain ⟨-, before, behind, -⟩ := Gaps.isBlank_iff.1 blank
  have here (prev : Option Char) : requirement? prev (assignmentText g "required".toList ++
      (truthText holds ++ rest)) = some holds := by
    have read := requirement?_assigned before behind prev holds rest
    simpa [assignmentText] using read
  have found : ∃ a, findFrom requirement? prev (front ++
      (assignmentText g "required".toList ++ (truthText holds ++ rest))) = some a ∧ a = holds := by
    refine findFrom_append front ?_ ⟨holds, findFrom_of_read (here _), rfl⟩
    rintro f s rfl nonempty a read
    obtain ⟨rest', value, split, sign, -⟩ := exists_of_requirement? read
    rcases List.append_eq_append_iff.1 split with ⟨cut, word, -⟩ | ⟨cut, rfl, rfl⟩
    · -- the word would begin in front of the boundary and end behind it
      obtain ⟨s, c, rfl⟩ := (List.eq_nil_or_concat s).resolve_left nonempty
      have letters : ∀ c ∈ "required".toList, isWordChar c = true :=
        List.all_eq_true.1 (by decide)
      have letter := letters c (by rw [word]; simp)
      simp [isBoundary, letter] at boundary
    · have start : (assignmentText g "required".toList ++ (truthText holds ++ rest)).head? =
          some 'r' := rfl
      have other : '=' ∉ trimStart cut := fun member =>
        absent (by simp [(suffix_trimStart cut).subset member])
      rw [afterEquals?, trimStart_append start (by decide)] at sign
      cases left : trimStart cut with
      | nil =>
        rw [left] at sign
        cases sign
      | cons c left' =>
        have ne : c ≠ '=' := by
          rintro rfl
          exact other (by rw [left]; exact List.mem_cons_self)
        rw [left, List.cons_append, afterChar?, if_neg (by simpa using ne)] at sign
        cases sign
  obtain ⟨a, read, rfl⟩ := found
  exact read

theorem findFrom_requirement?_closing {gaps : Nat → Gaps} (blank : ∀ n, (gaps n).isBlank = true)
    {as : List Attribute} {front : List Char} (absent : '=' ∉ front)
    (boundary : as ≠ [] → isBoundary front.getLast? = true) (prev : Option Char) :
    findFrom requirement? prev (front ++ closingText gaps as) = heeded? as := by
  induction as generalizing gaps prev front with
  | nil =>
    apply findFrom_requirement?_eq_none
    simp [closingText, attributesText, absent]
  | cons a rest ih =>
    cases a with
    | text k t =>
      have behind : '=' ∉ (gaps 0).back ++ separator (gaps 1) rest :=
        not_mem_behind blank (by decide) (by decide) rest
      rw [closingText_text, findFrom_stop (fun _ _ => requirement?_quote _ _ _) (fun _ => rfl),
        findFrom_requirement?_assignment (blank 0) k absent,
        findFrom_stop (fun _ _ => requirement?_quote _ _ _) (fun _ => rfl),
        ih (fun n => blank (n + 1)) behind, heeded?,
        findFrom_congr (fun _ _ _ => rfl) (some '"') none, Option.none_or]
      · rfl
      · intro more
        have begins := @boundary_separator gaps blank rest more [] none
        rwa [List.nil_append, Option.or_none] at begins
    | required holds =>
      have first := findFrom_requirement?_assigned (blank 0) absent
        (boundary (List.cons_ne_nil _ _)) prev holds
        (((gaps 0).back ++ separator (gaps 1) rest) ++ closingText (fun n => gaps (n + 1)) rest)
      rw [closingText_required, heeded?]
      simpa using first

/-- Only an at sign leads to the argument of a call. -/
theorem leadsOut_calling {prev : Option Char} {cs : List Char} (absent : '@' ∉ cs) :
    leadsOut calling? prev cs = false := by
  rw [Bool.eq_false_iff]
  intro leads
  obtain ⟨front, s, rfl, found⟩ := (leadsOut_iff fun _ => rfl).1 leads
  simp only [calling?, Option.bind_eq_bind, Option.bind_eq_some_iff] at found
  obtain ⟨behind, sign, -⟩ := found
  rw [afterChar?_eq_some_iff.1 sign] at absent
  exact absent (by simp)

/-- No call is read in arguments with at most one text. -/
theorem findFrom_calling_closing {gaps : Nat → Gaps} (blank : ∀ n, (gaps n).isBlank = true)
    {as : List Attribute} (single : (texts as).length ≤ 1) (quotes : ∀ t ∈ texts as, '"' ∉ t)
    {front : List Char} (sign : '@' ∉ front) (absent : '"' ∉ front) (prev : Option Char) :
    findFrom (quotedBehind? calling? closesCall) prev (front ++ closingText gaps as) = none := by
  induction as generalizing gaps prev front with
  | nil =>
    apply findFrom_unquoted quoteLead_calling
    rw [List.mem_append, not_or]
    exact ⟨absent, quote_not_mem_closing blank rfl⟩
  | cons a rest ih =>
    cases a with
    | text k t =>
      rw [texts, List.forall_mem_cons] at quotes
      have last : texts rest = [] := by
        rw [texts, List.length_cons] at single
        exact List.length_eq_zero_iff.1 (by omega)
      have outside {c : Char} (h : c ∈ outsideSigns) (absent : c ∉ front) :
          c ∉ front ++ assignmentText (gaps 0) k.word := by
        rw [List.mem_append, not_or]
        exact ⟨absent, not_mem_assignment blank h (k.not_mem_word h) 0⟩
      have unclosed := quote_not_mem_last blank last
      rw [closingText_text, findFrom_quote quoteLead_calling (outside (by decide) absent),
        leadsOut_calling (outside (by decide) sign), findFrom_quote quoteLead_calling quotes.1,
        closedText?_unclosed unclosed, findFrom_unquoted quoteLead_calling unclosed]
      simp
    | required holds =>
      rw [closingText_required]
      have outside {c : Char} (h : c ∈ outsideSigns) (absent : c ∉ front) : c ∉ front ++
          (assignmentText (gaps 0) "required".toList ++
            (truthText holds ++ ((gaps 0).back ++ separator (gaps 1) rest))) := by
        rw [List.mem_append, not_or]
        exact ⟨absent, not_mem_required blank h holds rest⟩
      exact ih (fun n => blank (n + 1)) single quotes (outside (by decide) sign)
        (outside (by decide) absent) prev

end Binding

end ApiCollection
