import ApiCollection.Proofs.DirectiveBlock
import ApiCollection.Proofs.DrawnEndpoint

/-!
# Directives and their members

The sweep finds every member of a well-formed text that is not hidden, with the directives of its
line behind those that the lines above have left for it. Directives and endpoints are those of the
lines exactly when no member is hidden and nothing is left for any: no directive stands above the
first one, and only the last one has directives.
-/

namespace ApiCollection

open Java Text

namespace Java

def attributed (block : List Directive) : List Member → List (List Directive)
  | [] => []
  | m :: ms => (block ++ m.own) ::
    attributed (if m.directives.isEmpty then [] else block ++ directives m.content) ms

private theorem map_headsBehind_method {ms : List Member} (wf : ∀ m ∈ ms, m.WellFormed)
    (shown : ∀ m ∈ ms, m.isHidden = false) (before : List Char) :
    (headsBehind before (ms.map Member.method)).map (fun h => (h.name, h.directives)) =
      (ms.map fun m => String.ofList m.name).zip
        (attributed ((blocksBelow before).flatMap directives) ms) := by
  induction ms generalizing before with
  | nil => rfl
  | cons m ms ih =>
    rw [List.forall_mem_cons] at wf shown
    have oneLine : '\n' ∉ m.lead := by
      intro member
      refine wf.1.oneLine ?_
      rw [Member.text, Member.content, List.append_assoc, ← List.append_assoc]
      exact List.mem_append_left _ member
    have left : (blocksBelow (before ++ '\n' :: m.text)).flatMap directives =
        if m.directives.isEmpty then []
        else (blocksBelow before).flatMap directives ++ directives m.content := by
      rw [blocksBelow_member wf.1]
      split
      · rfl
      · rw [List.flatMap_append, List.flatMap_singleton]
    rw [List.map_cons, headsBehind, Member.isHidden_method, shown.1, List.map_append,
      Member.text_method, ih wf.2 shown.2, left, attributed, List.map_cons, List.zip_cons_cons,
      ← directives_trim_lead wf.1, ← directivesAbove_line oneLine]
    rfl

/-- Every member gets its own directives exactly when nothing stands above the first one and no
member but the last one has directives. -/
theorem attributed_eq_iff {ms : List Member} (wf : ∀ m ∈ ms, m.WellFormed)
    (block : List Directive) : attributed block ms = ms.map Member.own ↔
      (ms ≠ [] → block = []) ∧ ∀ m ∈ ms.dropLast, m.directives = [] := by
  -- A block that is left for one member is lost on the next only if that one has no directives.
  induction ms generalizing block with
  | nil => simp [attributed]
  | cons m ms ih =>
    rw [List.forall_mem_cons] at wf
    have left : (if m.directives.isEmpty then [] else block ++ directives m.content) = [] ↔
        m.directives = [] := by
      cases own : m.directives with
      | nil => exact iff_of_true rfl rfl
      | cons w ws => simp [directives_content wf.1, Member.own, own]
    have last : (∀ x ∈ (m :: ms).dropLast, x.directives = []) ↔
        (ms ≠ [] → m.directives = []) ∧ ∀ x ∈ ms.dropLast, x.directives = [] := by
      cases ms with
      | nil => simp
      | cons n ms => simp
    rw [attributed, List.map_cons, List.cons.injEq, List.append_left_eq_self, ih wf.2, left, last]
    simp

private theorem length_attributed (block : List Directive) (ms : List Member) :
    (attributed block ms).length = ms.length := by
  induction ms generalizing block with
  | nil => rfl
  | cons m ms ih => rw [attributed, List.length_cons, ih, List.length_cons]

/-- The directives above the first member are those that stand above a declaration on its line. -/
theorem directivesAbove_header (l : Layout) :
    directivesAbove (l.header ++ ['\n']) = (blocksBelow l.header).flatMap directives := by
  rw [directivesAbove_line List.not_mem_nil]
  exact (congrArg _ directives_nil).trans (List.append_nil _)

/-- The lines of a text keep to themselves: no member is hidden, nothing stands above the first one
and no member but the last one has directives. -/
structure Layout.Separate (l : Layout) : Prop where
  shown : ∀ m ∈ l.members, m.isHidden = false
  above : l.members ≠ [] → directivesAbove (l.header ++ ['\n']) = []
  others : ∀ m ∈ l.members.dropLast, m.directives = []

/-- Names and directives are those of the members exactly when the lines keep to themselves. -/
theorem map_methodHeads_iff {l : Layout} (wf : l.WellFormed) :
    (methodHeads l.text).map (fun h => (h.name, h.directives)) =
      l.members.map (fun m => (String.ofList m.name, m.own)) ↔ l.Separate := by
  have zipped : l.members.map (fun m => (String.ofList m.name, m.own)) =
      (l.members.map fun m => String.ofList m.name).zip (l.members.map Member.own) := by
    rw [List.zip_map']
  have exact' := attributed_eq_iff wf.members (directivesAbove (l.header ++ ['\n']))
  have heads (shown : ∀ m ∈ l.members, m.isHidden = false) :
      (methodHeads l.text).map (fun h => (h.name, h.directives)) =
        (l.members.map fun m => String.ofList m.name).zip
          (attributed (directivesAbove (l.header ++ ['\n'])) l.members) := by
    rw [methodHeads_layout wf, map_headsBehind_method wf.members shown, directivesAbove_header]
  constructor
  · intro same
    have shown : ∀ m ∈ l.members, m.isHidden = false := by
      have lengths := congrArg List.length same
      rw [List.length_map, List.length_map, methodHeads_layout wf, length_headsBehind,
        List.countP_map, List.countP_eq_length] at lengths
      intro m hm
      simpa [Member.isHidden_method] using lengths m hm
    rw [heads shown, zipped] at same
    have seconds := congrArg (List.map Prod.snd) same
    rw [List.map_snd_zip (by simp [length_attributed]), List.map_snd_zip (by simp)] at seconds
    obtain ⟨above, others⟩ := exact'.1 seconds
    exact ⟨shown, above, others⟩
  · rintro ⟨shown, above, others⟩
    rw [heads shown, zipped, exact'.2 ⟨above, others⟩]

end Java

/-- The endpoint that directives make of a method: its identifier, request method and path. -/
def route? (base name : String) (directives : List Directive) :
    Option (String × HttpMethod × String) :=
  (Mapping.of? directives).map fun mapping =>
    (name, mapping.method, rooted (Mapping.joinPath base mapping.path))

theorem map_ofMethod? (className base : String) (h : MethodHead) :
    (Draft.ofMethod? className base h).map (fun d => (d.id, d.method, d.path)) =
      route? base h.name h.directives := by
  rw [Draft.ofMethod?, route?]
  cases Mapping.of? h.directives with
  | none => rfl
  | some mapping =>
    simp only [Option.bind_eq_bind, Option.bind_some, Option.pure_def, Option.map_some]

theorem draw_route (cache : Dto.Cache) (listSize : Nat) (d : Draft) (s : Random.Stream) :
    (((d.draw cache listSize).run s).1.id, ((d.draw cache listSize).run s).1.method,
      ((d.draw cache listSize).run s).1.path) = (d.id, d.method, d.path) := addInput_route _ _

private theorem mapM_route (cache : Dto.Cache) (listSize : Nat) (drafts : List Draft)
    (s : Random.Stream) :
    (((drafts.mapM (Draft.draw cache listSize)).run s).1).map (fun e => (e.id, e.method, e.path)) =
      drafts.map fun d => (d.id, d.method, d.path) :=
  map_run_mapM (draw_route cache listSize) drafts s

/-- The endpoints of a source text are those that the directives of its methods make. -/
theorem extract_route (unit : SourceUnit) (cache : Dto.Cache) (seed : UInt64) (listSize : Nat) :
    (unit.extract cache seed listSize).endpoints.map (fun e => (e.id, e.method, e.path)) =
      unit.methods.filterMap fun h =>
        route? (Mapping.basePath unit.head.directives) h.name h.directives := by
  rw [SourceUnit.extract]
  dsimp only
  rw [mapM_route, Draft.ofSource, List.map_filterMap]
  exact congrArg (List.filterMap · unit.methods) (funext fun h => map_ofMethod? _ _ h)

def writtenMapping (name path : String) : Written :=
  ⟨name.toList, some ([], '"' :: (path.toList ++ ['"'])), [' ']⟩

/-- A method without parameters that gives a text. -/
def textMember (ws : List Written) (name : String) : Member where
  indent := []
  directives := ws
  type := ⟨"String".toList, none, 0⟩
  gap := [' ']
  name := name.toList
  parameters := []
  space := []
  ending := .semicolon
  trail := []

/-- An interface with some methods, behind some text. -/
def userController (above : String) (members : List Member) : Layout :=
  ⟨(above ++ "interface UserController ").toList, [], members, "\x7d\n".toList⟩

theorem wellFormed_textMember {ws : List Written} {name : String}
    (directives : ∀ w ∈ ws, w.WellFormed) (gaps : ∀ w ∈ ws, w.gap ≠ [])
    (word : name.toList.all isWordChar = true) (named : name.toList ≠ [])
    (oneLine : '\n' ∉ (textMember ws name).text)
    (balanced : parenBalance (textMember ws name).content = 0) : (textMember ws name).WellFormed where
  indent := rfl
  directives := directives
  parted := fun w last _ => gaps w (List.mem_of_getLast? last)
  type := ⟨rfl, List.cons_ne_nil _ _, nofun⟩
  gap := rfl
  apart := List.cons_ne_nil _ _
  name := word
  named := named
  modifier := (by decide : ¬methodModifiers.contains "String")
  enclosed := (by decide : Enclosed [])
  calm := (by decide +kernel : Calm (some '(') [])
  space := rfl
  body := nofun
  trail := rfl
  oneLine := oneLine
  balanced := balanced

theorem wellFormed_writtenMapping {name path : String}
    (characters : name.toList.all isNameChar = true) (named : lastPiece '.' name.toList ≠ [])
    (declares : lastPiece '.' name.toList ≠ "interface".toList)
    (enclosed : Enclosed ('"' :: (path.toList ++ ['"'])))
    (calm : Calm (some '(') ('"' :: (path.toList ++ ['"']))) : (writtenMapping name path).WellFormed where
  characters := characters
  named := named
  declares := declares
  space := by
    rintro _ _ ⟨⟩
    rfl
  enclosed := by
    rintro _ _ ⟨⟩
    exact enclosed
  calm := by
    rintro _ _ ⟨⟩
    exact calm
  gap := rfl

theorem wellFormed_userController {above : String} {members : List Member}
    (calm : Calm none (above ++ "interface UserController ").toList)
    (wf : ∀ m ∈ members, m.WellFormed) : (userController above members).WellFormed where
  opening := calm
  trail := rfl
  oneLine := List.not_mem_nil
  members := wf
  closing := (by decide +kernel : Calm (some '\n') "\x7d\n".toList)

private theorem wellFormed_ping : (textMember [] "ping").WellFormed :=
  wellFormed_textMember (by simp) (by simp) (by decide) (by decide) (by decide +kernel)
    (by decide +kernel)

theorem wellFormed_first : (textMember [writtenMapping "GetMapping" "/a"] "first").WellFormed := by
  have mapping : (writtenMapping "GetMapping" "/a").WellFormed :=
    wellFormed_writtenMapping (by decide) (by decide) (by decide) (by decide) (by decide +kernel)
  exact wellFormed_textMember (by simpa using mapping) (by simp [writtenMapping]) (by decide)
    (by decide) (by decide +kernel) (by decide +kernel)

private theorem wellFormed_second :
    (textMember [writtenMapping "PostMapping" "/b"] "second").WellFormed := by
  have mapping : (writtenMapping "PostMapping" "/b").WellFormed :=
    wellFormed_writtenMapping (by decide) (by decide) (by decide) (by decide) (by decide +kernel)
  exact wellFormed_textMember (by simpa using mapping) (by simp [writtenMapping]) (by decide)
    (by decide) (by decide +kernel) (by decide +kernel)

/-- A method without directives before one with a mapping, below a base path. -/
def pingFirst : Layout :=
  userController "@RequestMapping(\"/api\")\n"
    [textMember [] "ping", textMember [writtenMapping "GetMapping" "/a"] "first"]

/-- Two methods with mappings. -/
def firstSecond : Layout :=
  userController "" [textMember [writtenMapping "GetMapping" "/a"] "first",
    textMember [writtenMapping "PostMapping" "/b"] "second"]

private theorem wellFormed_pingFirst : pingFirst.WellFormed :=
  wellFormed_userController (by decide +kernel) (by simp [wellFormed_ping, wellFormed_first])

private theorem wellFormed_firstSecond : firstSecond.WellFormed :=
  wellFormed_userController (by decide +kernel) (by simp [wellFormed_first, wellFormed_second])

/-- Methods and endpoints are those of the lines exactly when the lines keep to themselves. -/
theorem directives_of_lines_iff {l : Layout} (wf : l.WellFormed) :
    ((methodHeads l.text).map (fun h => (h.name, h.directives)) =
        l.members.map (fun m => (String.ofList m.name, m.own)) ∧
      ∀ cache seed listSize,
        ((SourceUnit.of (String.ofList l.text)).extract cache seed listSize).endpoints.map
            (fun e => (e.id, e.method, e.path)) =
          l.members.filterMap fun m =>
            route? (Mapping.basePath (ClassHead.of l.text).directives) (String.ofList m.name) m.own) ↔
      l.Separate := by
  rw [← map_methodHeads_iff wf]
  refine ⟨And.left, fun same => ⟨same, fun cache seed listSize => ?_⟩⟩
  have unit : SourceUnit.of (String.ofList l.text) = ⟨ClassHead.of l.text, methodHeads l.text⟩ := by
    rw [SourceUnit.of, String.toList_ofList]
  have routes := congrArg (List.filterMap fun x : String × List Directive =>
    route? (Mapping.basePath (ClassHead.of l.text).directives) x.1 x.2) same
  rw [List.filterMap_map, List.filterMap_map] at routes
  rw [extract_route, unit]
  exact routes

theorem directives_of_lines_pingFirst : pingFirst.WellFormed ∧
    (methodHeads pingFirst.text).map (fun h => (h.name, h.directives)) =
      [("ping", []), ("first", [⟨"GetMapping", some "\"/a\"", "@GetMapping(\"/a\")"⟩])] ∧
    ∀ cache seed listSize,
      ((SourceUnit.of (String.ofList pingFirst.text)).extract cache seed listSize).endpoints.map
        (fun e => (e.id, e.method, e.path)) = [("first", .get, "/api/a")] := by
  have separate : pingFirst.Separate := by
    refine ⟨by decide +kernel, fun _ => by decide +kernel, ?_⟩
    intro m hm
    rw [List.mem_singleton.1 hm]
    rfl
  obtain ⟨heads, endpoints⟩ := (directives_of_lines_iff wellFormed_pingFirst).2 separate
  refine ⟨wellFormed_pingFirst, heads.trans (by decide +kernel), ?_⟩
  intro cache seed listSize
  exact (endpoints cache seed listSize).trans (by decide +kernel)

/-- The second of two methods gets the directive of the first one, too, and its endpoint is that of
the first one. -/
theorem directives_of_lines_ne_firstSecond : firstSecond.WellFormed ∧
    firstSecond.text = ("interface UserController \x7b\n@GetMapping(\"/a\") String first();\n" ++
      "@PostMapping(\"/b\") String second();\n\x7d\n").toList ∧
    (methodHeads firstSecond.text).map (·.directives) ≠ firstSecond.members.map Member.own ∧
    (Draft.ofSource (ClassHead.of firstSecond.text) (methodHeads firstSecond.text)).map
      (fun d => (d.id, d.method, d.path)) = [("first", .get, "/a"), ("second", .get, "/a")] :=
  ⟨wellFormed_firstSecond, by decide +kernel, by decide +kernel, by decide +kernel⟩

end ApiCollection
