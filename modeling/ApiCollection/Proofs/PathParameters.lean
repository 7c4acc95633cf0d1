import ApiCollection.Proofs.DrawnMethods
import ApiCollection.Proofs.PathSweep

/-!
# Path parameters of endpoints

The path parameters of an endpoint are the declared ones, and behind them one for each name that
extraction finds in its path and that is not declared. So a template of the path has a parameter
exactly if it is declared or its name is a word.
-/

namespace ApiCollection

open Java

section Inputs

variable {α : Type}

def Input.pathParameter? : Input α → Option (Parameter α)
  | .parameter .path p => some p
  | _ => none

private theorem path_foldl_addInput (inputs : List (Input α)) (e : Endpoint α) :
    (inputs.foldl Endpoint.addInput e).parameters.path =
      e.parameters.path ++ inputs.filterMap Input.pathParameter? := by
  induction inputs generalizing e with
  | nil => exact (List.append_nil _).symm
  | cons input inputs ih =>
    rw [List.foldl_cons, ih]
    cases input with
    | body b => rfl
    | parameter location p =>
      cases location with
      | path => exact List.append_assoc _ _ _
      | query | header | body => rfl

end Inputs

def Java.MethodHead.pathBindings (m : MethodHead) : List Binding :=
  ((Java.parameters m.parameters.toList).filterMap Binding.of?).filter (·.location == .path)

namespace Draft

/-- What is not declared is added once for each name, in the order in which the names come first. -/
theorem undeclaredNames_eq (declared names : List String) :
    undeclaredNames declared names = (names.filter fun name => name ∉ declared).eraseDups := by
  induction names generalizing declared with
  | nil => rfl
  | cons name names ih =>
    rw [undeclaredNames]
    split
    · rename_i present
      rw [ih, List.filter_cons_of_neg (by simpa using present)]
    · rename_i absent
      rw [ih, List.filter_cons_of_pos (by simpa using absent), List.eraseDups_cons,
        List.filter_filter]
      simp [and_comm, Bool.beq_eq_decide_eq]

private theorem filterMap_input (bindings : List Binding) :
    bindings.filterMap (fun b => ((input b).relabel noExample).pathParameter?) =
      (bindings.filter (·.location == .path)).map fun b => (parameter b).outline := by
  induction bindings with
  | nil => rfl
  | cons b bindings ih =>
    rw [List.filterMap_cons, List.filter_cons, ih, input]
    cases b.location <;> rfl

/-- The path parameters that the draft of a method lays out. -/
theorem path_outline_of_ofMethod? {className base : String} {m : MethodHead} {d : Draft}
    (laidOut : ofMethod? className base m = some d) : d.outline.parameters.path =
      m.pathBindings.map (fun b => (parameter b).outline) ++
        (undeclaredNames (m.pathBindings.map (·.name)) (templateVariables d.path)).map
          fun name => (undeclared name).outline := by
  simp only [ofMethod?, Option.bind_eq_bind, Option.bind_eq_some_iff, Option.pure_def,
    Option.some.injEq] at laidOut
  obtain ⟨mapping, -, same⟩ := laidOut
  have path := congrArg Draft.path same
  have inputs := congrArg Draft.inputs same
  dsimp only at path inputs
  rw [path] at inputs
  rw [outline, relabel, path_foldl_addInput, ← inputs, List.nil_append, List.map_append,
    List.filterMap_append, List.map_map, List.filterMap_map, List.map_map, List.filterMap_map]
  refine congrArg₂ (· ++ ·) (filterMap_input _) ?_
  rw [← List.filterMap_eq_map]
  rfl

end Draft

/-- Whether the path parameters of an endpoint are the declared ones and behind them one for each of
some names that is not declared, in the order in which the names come first. -/
def Endpoint.Documents {α : Type} (e : Endpoint α) (declared : List Binding)
    (names : List String) : Prop :=
  e.parameters.path.map Parameter.outline =
    declared.map (fun b => (Draft.parameter b).outline) ++
      (names.filter fun name => name ∉ declared.map (·.name)).eraseDups.map
        fun name => (Draft.undeclared name).outline

theorem Endpoint.Documents.mem_names_iff {α : Type} {e : Endpoint α} {declared : List Binding}
    {names : List String} (h : e.Documents declared names) {name : String} :
    name ∈ e.parameters.path.map (·.name) ↔ name ∈ declared.map (·.name) ∨ name ∈ names := by
  have outlines : (e.parameters.path.map Parameter.outline).map (·.name) =
      e.parameters.path.map (·.name) := List.map_map
  have own : (declared.map fun b => (Draft.parameter b).outline).map (·.name) =
      declared.map (·.name) := List.map_map
  have added (names : List String) :
      (names.map fun name => (Draft.undeclared name).outline).map (·.name) = names :=
    List.map_map.trans (List.map_id names)
  rw [← outlines, h, List.map_append, own, added, List.mem_append, List.mem_eraseDups,
    List.mem_filter, decide_eq_true_iff]
  tauto

variable {unit : SourceUnit} {cache : Dto.Cache} {listSize : Nat} {m : MethodHead}
  {e : Endpoint Json}

theorem Endpoint.documents_of_outline {d : Draft} {className base : String}
    (laidOut : Draft.ofMethod? className base m = some d) (path : e.path = d.path)
    (same : e.outline.parameters = d.outline.parameters) :
    e.Documents m.pathBindings (Draft.templateVariables e.path) := by
  rw [Endpoint.Documents, path, ← Draft.undeclaredNames_eq]
  exact (congrArg ParameterSet.path same).trans (Draft.path_outline_of_ofMethod? laidOut)

theorem SourceUnit.Draws.documents (h : unit.Draws cache listSize m e) :
    e.Documents m.pathBindings (Draft.templateVariables e.path) := by
  obtain ⟨d, s, laidOut, rfl⟩ := h
  exact Endpoint.documents_of_outline laidOut (congrArg (·.2.2) (draw_route cache listSize d s))
    (congrArg Endpoint.parameters (outline_draw cache listSize d s))

/-- A template has a parameter exactly if it is declared or its name is a word. -/
theorem SourceUnit.Draws.key_mem_iff (h : unit.Draws cache listSize m e) {g : Template}
    (here : g ∈ templates e.path) : g.key ∈ e.parameters.path.map (·.name) ↔
      g.key ∈ m.pathBindings.map (·.name) ∨ g.isWord = true := by
  rw [h.documents.mem_names_iff, key_mem_templateVariables_iff here]

/-- Names that are not words add nothing if they are declared and their patterns open no brace. -/
theorem filter_found {declared : List String} {gs : List Template}
    (plain : ∀ g ∈ gs, g.isWord = true ∨ '\x7b' ∉ g.pattern?.getD [])
    (known : ∀ g ∈ gs, g.key ∈ declared ∨ g.isWord = true) :
    (gs.flatMap Template.found).filter (fun name => name ∉ declared) =
      (gs.map Template.key).filter fun name => name ∉ declared := by
  induction gs with
  | nil => rfl
  | cons g gs ih =>
    rw [List.forall_mem_cons] at plain known
    rw [List.flatMap_cons, List.filter_append, ih plain.2 known.2, List.map_cons,
      ← List.singleton_append, List.filter_append]
    congr 1
    by_cases word : g.isWord = true
    · rw [Template.found, if_pos word]
    · rw [Template.found_of_not_isWord word (plain.1.resolve_left word)]
      simp [known.1.resolve_right word]

/-- The path parameters of the endpoints of a source text are the declared ones, and behind them those
for what extraction finds. A template has one exactly if it is declared or its name is a word. Where
the patterns of other names open no brace, the parameters are those for the templates if each
template has one, and only then. -/
theorem pathParameters_extract (unit : SourceUnit) (cache : Dto.Cache) (seed : UInt64)
    (listSize : Nat) : List.Forall₂ (fun m e =>
        let declared := m.pathBindings.map (·.name)
        let gs := templates e.path
        e.Documents m.pathBindings (gs.flatMap Template.found) ∧
        (∀ g ∈ gs, g.key ∈ e.parameters.path.map (·.name) ↔
          g.key ∈ declared ∨ g.isWord = true) ∧
        ((∀ g ∈ gs, g.isWord = true ∨ '\x7b' ∉ g.pattern?.getD []) →
          (e.Documents m.pathBindings (gs.map Template.key) ↔
            ∀ g ∈ gs, g.key ∈ declared ∨ g.isWord = true)))
      (unit.methods.filter MethodHead.isMapped) (unit.extract cache seed listSize).endpoints := by
  refine (forall₂_extract unit cache seed listSize).imp fun m e drawn => ?_
  have documents := drawn.documents
  rw [templateVariables_eq] at documents
  refine ⟨documents, fun g here => drawn.key_mem_iff here, fun plain => ⟨?_, fun known => ?_⟩⟩
  · intro claimed g here
    rw [← drawn.key_mem_iff here, claimed.mem_names_iff]
    exact .inr (List.mem_map_of_mem here)
  · rwa [Endpoint.Documents, ← filter_found plain known]

/-- A GET method for a path, which returns nothing. -/
def visit (path parameters : String) : MethodHead :=
  ⟨"visit", "void", parameters,
    [⟨"GetMapping", some ("\"" ++ path ++ "\""), "@GetMapping(\"" ++ path ++ "\")"⟩],
    43 + path.length, 3⟩

def visits (path parameters : String) : SourceUnit :=
  ⟨⟨none, "UserController", []⟩, [visit path parameters]⟩

theorem exists_draws_visit (path parameters : String)
    (route : route? "" "visit" (visit path "").directives = some ("visit", .get, path)) :
    (visits path parameters).methods.filter MethodHead.isMapped = [visit path parameters] ∧
      ∃ e, ((visits path parameters).extract {} 42 2).endpoints = [e] ∧ e.path = path ∧
        (visits path parameters).Draws {} 2 (visit path parameters) e := by
  have mapped : (visits path parameters).methods.filter MethodHead.isMapped =
      [visit path parameters] := by
    refine List.filter_cons_of_pos ?_
    rw [MethodHead.isMapped, ← Option.isSome_map]
    exact congrArg Option.isSome route
  obtain ⟨e, endpoint, drawn⟩ := exists_draws mapped {} 42 2
  have same := Option.some.inj (drawn.route.symm.trans route)
  exact ⟨mapped, e, endpoint, congrArg (·.2.2) same, drawn⟩

def rolePath : String := "/users/\x7bid\x7d/roles/\x7brole:[a-z]+\x7d"

/-- The identifier of a user is declared, and a role is not. -/
theorem pathParameters_roles : ∃ e,
    ((visits rolePath "@PathVariable Long id").extract {} 42 2).endpoints = [e] ∧
      e.Documents [⟨"id", "Long", .path, true, none⟩] ["id", "role"] := by
  have declared : (visit rolePath "@PathVariable Long id").pathBindings =
      [⟨"id", "Long", .path, true, none⟩] := by decide +kernel
  have gs : templates rolePath = [⟨"id".toList, none⟩, ⟨"role".toList, some "[a-z]+".toList⟩] := by
    cbv
  have words : ∀ g ∈ templates rolePath, g.isWord = true := by
    rw [gs]
    decide
  obtain ⟨mapped, e, endpoint, path, -⟩ :=
    exists_draws_visit rolePath "@PathVariable Long id" (by decide)
  have parameters := pathParameters_extract (visits rolePath "@PathVariable Long id") {} 42 2
  rw [endpoint, mapped, List.forall₂_cons, path, declared] at parameters
  have documents := (parameters.1.2.2 fun g here => .inl (words g here)).2
    fun g here => .inr (words g here)
  rw [gs] at documents
  exact ⟨e, endpoint, documents⟩

/-- A hyphen in a name hides the template. -/
theorem exists_undocumented :
    ¬∀ (unit : SourceUnit) (cache : Dto.Cache) (seed : UInt64) (listSize : Nat),
      List.Forall₂ (fun m e =>
          (∀ g ∈ templates e.path, g.key ∈ e.parameters.path.map (·.name)) ∧
            e.Documents m.pathBindings ((templates e.path).map Template.key))
        (unit.methods.filter MethodHead.isMapped)
        (unit.extract cache seed listSize).endpoints := by
  intro all
  have gs : templates "/users/\x7buser-id\x7d" = [⟨"user-id".toList, none⟩] := by cbv
  obtain ⟨mapped, e, endpoint, path, drawn⟩ :=
    exists_draws_visit "/users/\x7buser-id\x7d" "" (by decide)
  have claimed := all (visits "/users/\x7buser-id\x7d" "") {} 42 2
  rw [endpoint, mapped, List.forall₂_cons] at claimed
  have here : ⟨"user-id".toList, none⟩ ∈ templates e.path := by
    rw [path, gs]
    exact List.mem_cons_self
  have parameter := (drawn.key_mem_iff here).1 (claimed.1.1 _ here)
  exact absurd parameter (by decide)

end ApiCollection
