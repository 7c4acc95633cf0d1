import ApiCollection.Proofs.MethodSweep

/-!
# The methods of a body

The heads of a class or an interface whose methods stand on lines of their own are those of its
methods, in order, without the hidden ones. They have the names, the return types and the parameters
that are declared exactly when no directive takes a declaration along.

A member is a method without modifiers, type parameters and a `throws` clause, with no blanks before
its brackets.
-/

namespace ApiCollection.Java

open Text

def methodLines (ms : List Method) : List Char := ms.flatMap fun m => '\n' :: m.text

/-- A class or an interface with its methods. -/
structure Body where
  /-- What stands before the brace that opens the class. -/
  opening : List Char
  /-- The blanks behind that brace. -/
  trail : List Char
  methods : List Method
  /-- What follows the last method. -/
  closing : List Char

namespace Body

def header (b : Body) : List Char := b.opening ++ '\x7b' :: b.trail

def text (b : Body) : List Char := b.header ++ (methodLines b.methods ++ '\n' :: b.closing)

structure WellFormed (b : Body) : Prop where
  opening : Calm none b.opening
  trail : b.trail.all isBlank = true
  methods : ∀ m ∈ b.methods, m.WellFormed
  closing : Calm (some '\n') b.closing

instance (b : Body) : Decidable b.WellFormed :=
  decidable_of_iff (_ ∧ _ ∧ _ ∧ _) ⟨fun ⟨a, b, c, d⟩ => ⟨a, b, c, d⟩,
    fun ⟨a, b, c, d⟩ => ⟨a, b, c, d⟩⟩

end Body

def headsBehind (before : List Char) : List Method → List MethodHead
  | [] => []
  | m :: ms => (if m.isHidden then [] else [m.head (before ++ '\n' :: m.lead)]) ++
    headsBehind (before ++ '\n' :: m.text) ms

private theorem headsFrom_methods {ms : List Method} (wf : ∀ m ∈ ms, m.WellFormed)
    {closing : List Char}
    (calm : Calm (some '\n') closing) (before : List Char) (prev : Option Char) :
    headsFrom (before ++ (methodLines ms ++ '\n' :: closing)) prev
      (methodLines ms ++ '\n' :: closing) = headsBehind before ms := by
  -- Heads are read off the whole text, so the text in front grows with every line.
  induction ms generalizing before prev with
  | nil => exact (headsFrom_cons (by decide) (by decide) prev closing).trans (headsFrom_calm_end calm)
  | cons m ms ih =>
    rw [List.forall_mem_cons] at wf
    obtain ⟨rest, below⟩ : ∃ rest, methodLines ms ++ '\n' :: closing = '\n' :: rest := by
      cases ms with
      | nil => exact ⟨_, rfl⟩
      | cons m ms => exact ⟨_, rfl⟩
    have text : methodLines (m :: ms) ++ '\n' :: closing = '\n' :: (m.text ++ '\n' :: rest) := by
      rw [methodLines, List.flatMap_cons, List.append_assoc, List.cons_append, ← below]
      rfl
    have outside : insideWord (some '\n') = false := by decide
    have first := headsFrom_method wf.1 (before ++ ['\n']) rest outside
    have later := ih wf.2 (before ++ '\n' :: m.text) (some '\n')
    have source : before ++ ['\n'] ++ (m.text ++ '\n' :: rest) =
        before ++ '\n' :: (m.text ++ '\n' :: rest) := by simp
    have source' : before ++ '\n' :: m.text ++ '\n' :: rest =
        before ++ '\n' :: (m.text ++ '\n' :: rest) := by simp
    rw [below, source', headsFrom_cons (by decide) (by decide)] at later
    rw [source, List.append_assoc, List.singleton_append] at first
    rw [text, headsFrom_cons (by decide) (by decide), first, later]
    rfl

/-- A text has the heads of its methods. -/
theorem methodHeads_body {b : Body} (wf : b.WellFormed) :
    methodHeads b.text = headsBehind b.header b.methods := by
  obtain ⟨below, same⟩ : ∃ below, below = methodLines b.methods ++ '\n' :: b.closing := ⟨_, rfl⟩
  have methods (prev : Option Char) :
      headsFrom (b.header ++ below) prev below = headsBehind b.header b.methods := by
    rw [same]
    exact headsFrom_methods wf.methods wf.closing b.header prev
  have text : b.header ++ below = b.opening ++ '\x7b' :: (b.trail ++ below) := by
    simp [Body.header]
  have opened (source : List Char) : headsFrom source none (b.opening ++ '\x7b' :: (b.trail ++ below)) =
      headsFrom source (lastBehind (some '\x7b') b.trail) below := by
    rw [headsFrom_calm (by decide) wf.opening, headsFrom_blanks wf.trail]
  rw [methodHeads_eq, Body.text, ← same, ← methods (lastBehind (some '\x7b') b.trail), ← opened,
    ← text]
  rfl

/-- The name, the return type with single spaces, and the parameters without the blanks around. -/
def Method.declared (m : Method) : String × String × String :=
  (String.ofList m.declaration.signature.call.name,
    String.ofList (squeezeBlanks m.declaration.signature.type.text), String.ofList (trim m.parameters))

def MethodHead.declared (h : MethodHead) : String × String × String :=
  (h.name, h.returnType, h.parameters)

theorem map_headsBehind (before : List Char) (ms : List Method) :
    (headsBehind before ms).map MethodHead.declared =
      (ms.filter fun m => !m.isHidden).map Method.declared := by
  induction ms generalizing before with
  | nil => rfl
  | cons m ms ih =>
    rw [headsBehind, List.map_append, ih, List.filter_cons]
    cases m.isHidden <;> rfl

theorem length_headsBehind (before : List Char) (ms : List Method) :
    (headsBehind before ms).length = ms.countP fun m => !m.isHidden := by
  have lengths := congrArg List.length (map_headsBehind before ms)
  rwa [List.length_map, List.length_map, ← List.countP_eq_length_filter] at lengths

/-- Whether the words of a method are no words of statements, and its type is no modifier. -/
structure Method.IsNamed (m : Method) : Prop where
  type : ¬(statementWords ++ (methodModifiers ++ controlWords)).contains
    (String.ofList m.declaration.signature.type.text)
  name : ¬controlWords.contains (String.ofList m.declaration.signature.call.name)

instance (m : Method) : Decidable m.IsNamed :=
  decidable_of_iff (_ ∧ _) ⟨fun ⟨a, b⟩ => ⟨a, b⟩, fun ⟨a, b⟩ => ⟨a, b⟩⟩

private theorem isStatement_eq_false {m : Method} (wf : m.WellFormed) (named : m.IsNamed) :
    m.isStatement = false := by
  have type := named.type
  have name := named.name
  rw [Method.isStatement, Candidate.isStatement]
  dsimp only
  rw [trim_type wf.declaration.signature.type]
  simp only [List.contains_append, Bool.or_eq_true, not_or, Bool.not_eq_true] at type name
  rw [type.1, type.2.1, type.2.2, name]
  rfl

/-- What is declared is found exactly when no directive takes a declaration along. -/
theorem map_methodHeads_eq_iff {b : Body} (wf : b.WellFormed) (named : ∀ m ∈ b.methods, m.IsNamed) :
    (methodHeads b.text).map MethodHead.declared = b.methods.map Method.declared ↔
      ∀ m ∈ b.methods, m.isCaught = false := by
  have hidden (m : Method) (member : m ∈ b.methods) : m.isHidden = m.isCaught := by
    rw [Method.isHidden, isStatement_eq_false (wf.methods m member) (named m member), Bool.or_false]
  rw [methodHeads_body wf, map_headsBehind]
  constructor
  · intro same m member
    have lengths := congrArg List.length same
    rw [List.length_map, List.length_map, List.length_filter_eq_length_iff] at lengths
    rw [← hidden m member]
    simpa using lengths m member
  · intro shown
    rw [List.filter_eq_self.2]
    intro m member
    rw [hidden m member, shown m member]
    rfl

def repository (methods : List Method) : Body :=
  ⟨"interface Repository ".toList, [], methods, "\x7d\n".toList⟩

def listMethod (ws : List Written) (modifiers : List (String × List Char))
    (parameters : Option TypeParameters) (name : String) : Method where
  indent := "  ".toList
  directives := ws
  declaration := ⟨modifiers, parameters,
    ⟨⟨"List".toList, some ([], "T".toList), []⟩, ⟨[' '], name.toList, []⟩⟩⟩
  parameters := "T x, int y".toList
  space := []
  thrown := none
  ending := .semicolon
  trail := []

def comparable : TypeParameters := ⟨"T extends Comparable".toList, [("T".toList, [])], [' ']⟩

def bareLine (name : String) : Written := ⟨name.toList, none, "\n  ".toList⟩

/-- A generic method behind a modifier, and one without directives. -/
def foundMethods : Body :=
  repository [listMethod [bareLine "Override"] [("public", [' '])] (some comparable) "find",
    listMethod [] [] (some comparable) "all"]

/-- A generic method without modifiers, behind a directive without arguments. -/
def lostMethod : Body := repository [listMethod [bareLine "Override"] [] (some comparable) "find"]

theorem map_methodHeads_foundMethods : foundMethods.WellFormed ∧
    (∀ m ∈ foundMethods.methods, m.IsNamed) ∧
    (methodHeads foundMethods.text).map MethodHead.declared =
      [("find", "List<T>", "T x, int y"), ("all", "List<T>", "T x, int y")] := by
  have wf : foundMethods.WellFormed := by decide +kernel
  have named : ∀ m ∈ foundMethods.methods, m.IsNamed := by decide +kernel
  have shown : ∀ m ∈ foundMethods.methods, m.isCaught = false := by decide +kernel
  exact ⟨wf, named, ((map_methodHeads_eq_iff wf named).2 shown).trans (by decide +kernel)⟩

/-- The method of an interface is not found. -/
theorem map_methodHeads_ne_lostMethod : lostMethod.WellFormed ∧
    (∀ m ∈ lostMethod.methods, m.IsNamed) ∧
    lostMethod.text = ("interface Repository \x7b\n  @Override\n  " ++
      "<T extends Comparable<T>> List<T> find(T x, int y);\n\x7d\n").toList ∧
    lostMethod.methods.map Method.declared = [("find", "List<T>", "T x, int y")] ∧
    (methodHeads lostMethod.text).map MethodHead.declared = [] :=
  ⟨by decide +kernel, by decide +kernel, by decide +kernel, by decide +kernel, by decide +kernel⟩

namespace Member

def lead (m : Member) : List Char := m.indent ++ leadText m.directives

def signature (m : Member) : Signature :=
  ⟨⟨m.type.base, m.type.arguments.map (([], ·)), List.replicate m.type.arrays []⟩,
    ⟨m.gap, m.name, []⟩⟩

def method (m : Member) : Method where
  indent := m.indent
  directives := m.directives
  declaration := ⟨[], none, m.signature⟩
  parameters := m.parameters
  space := m.space
  thrown := none
  ending := m.ending
  trail := m.trail

theorem text_type (m : Member) : m.signature.type.text = m.type.text := by
  have arguments : m.signature.type.argumentText =
      m.type.arguments.elim [] (fun inside => '<' :: (inside ++ ['>'])) := by
    rw [SpacedType.argumentText, signature]
    cases m.type.arguments <;> rfl
  have arrays : arrayText (List.replicate m.type.arrays []) =
      (List.replicate m.type.arrays "[]".toList).flatten := by
    rw [arrayText, List.flatMap_def, List.map_replicate]
    rfl
  rw [SpacedType.text, ReturnType.text, arguments, ← arrays]
  rfl

theorem text_method (m : Member) : m.method.text = m.text := by
  have type := m.text_type
  simp [Method.text, Method.lead, Method.behind, Method.clause, Declaration.text, Declaration.generic,
    Signature.text, Call.text, modifierText, method, Member.text, content, declaration, ← type]
  rfl

theorem isHidden_method (m : Member) : m.method.isHidden = m.isHidden := by
  have caught : m.method.isCaught = m.directives.getLast?.any Written.endsInModifier := by
    rw [Method.isCaught]
    congr 1
    funext w
    exact (congrArg (_ || ·) (Bool.and_false _)).trans (Bool.or_false _)
  have words : m.method.isStatement = (Candidate.mk [] m.type.text m.name []).isStatement := by
    rw [← text_type]
    rfl
  rw [Method.isHidden, isHidden, caught, words]

end Member

private theorem Member.WellFormed.method {m : Member} (wf : m.WellFormed) :
    m.method.WellFormed where
  indent := all_isBlank wf.indent
  directives := fun w member => (wf.directives w member).silent
  parted := wf.parted
  declaration := {
    modifiers := nofun
    typeParameters := nofun
    signature := {
      type := {
        characters := wf.type.characters
        nonempty := wf.type.nonempty
        arguments := by
          intro found given
          obtain ⟨inside, arguments, rfl⟩ := Option.map_eq_some_iff.1 given
          exact ⟨rfl, wf.type.arguments inside arguments⟩
        arrays := by
          intro blanks member
          rw [List.eq_of_mem_replicate member]
          rfl }
      modifier := wf.modifier
      call := ⟨all_isBlank wf.gap, wf.apart, wf.name, wf.named, rfl⟩ } }
  enclosed := wf.enclosed
  calm := wf.calm
  space := all_isBlank wf.space
  thrown := nofun
  body := by
    change Calm (some '\x7b') m.ending.inside
    cases ending : m.ending with
    | semicolon => exact calm_of_not_mem List.not_mem_nil _
    | body inside => exact wf.body inside ending
  trail := wf.trail

/-- A text has the heads of its members. -/
theorem methodHeads_layout {l : Layout} (wf : l.WellFormed) :
    methodHeads l.text = headsBehind l.header (l.members.map Member.method) := by
  have body : (Body.mk l.opening l.trail (l.members.map Member.method) l.closing).WellFormed := by
    refine ⟨wf.opening, wf.trail, ?_, wf.closing⟩
    rw [List.forall_mem_map]
    exact fun m member => (wf.members m member).method
  have lines : methodLines (l.members.map Member.method) = memberLines l.members := by
    rw [methodLines, memberLines, List.flatMap_map]
    simp only [Member.text_method]
  have found := methodHeads_body body
  rw [Body.text, lines] at found
  exact found

end ApiCollection.Java
