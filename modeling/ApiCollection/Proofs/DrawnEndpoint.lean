import ApiCollection.Api.Basic
import Mathlib.Data.List.Basic

/-!
# Endpoints without their examples

Drawing fills in the examples of a draft and changes nothing else: the endpoint and the draft have
the same outline. What does not speak of examples can be read off the draft.
-/

namespace ApiCollection

open ApiCollection.Random Schema

variable {α β γ σ : Type}

section Relabel

variable (g : Option α → Option β)

def Parameter.relabel (p : Parameter α) : Parameter β :=
  { name := p.name, type := p.type, required := p.required, schema := p.schema
    example? := g p.example?, description := p.description }

def Body.relabel (b : Body α) : Body β :=
  { type := b.type, required := b.required, contentType := b.contentType, schema := b.schema
    example? := g b.example? }

def Response.relabel (r : Response α) : Response β :=
  { status := r.status, description := r.description, contentType := r.contentType
    schema := r.schema, example? := g r.example? }

def Input.relabel : Input α → Input β
  | .parameter location p => .parameter location (p.relabel g)
  | .body b => .body (b.relabel g)

def ParameterSet.relabel (s : ParameterSet α) : ParameterSet β :=
  { path := s.path.map (Parameter.relabel g), query := s.query.map (Parameter.relabel g)
    header := s.header.map (Parameter.relabel g) }

/-- An endpoint with other examples, or with none, in the place of its own. -/
def Endpoint.relabel (e : Endpoint α) : Endpoint β :=
  { id := e.id, method := e.method, path := e.path, name := e.name, description := e.description
    tags := e.tags, parameters := e.parameters.relabel g, body := e.body.map (Body.relabel g)
    responses := e.responses.map (Response.relabel g) }

private theorem relabel_push (s : ParameterSet α) (location : Location) (p : Parameter α) :
    (s.push location p).relabel g = (s.relabel g).push location (p.relabel g) := by
  cases location <;> simp [ParameterSet.push, ParameterSet.relabel]

private theorem relabel_addInput (e : Endpoint α) (input : Input α) :
    (e.addInput input).relabel g = (e.relabel g).addInput (input.relabel g) := by
  cases input with
  | parameter location p => simp [Endpoint.addInput, Endpoint.relabel, Input.relabel, relabel_push]
  | body b => rfl

private theorem relabel_foldl_addInput (inputs : List (Input α)) (e : Endpoint α) :
    (inputs.foldl Endpoint.addInput e).relabel g =
      (inputs.map (Input.relabel g)).foldl Endpoint.addInput (e.relabel g) := by
  induction inputs generalizing e with
  | nil => rfl
  | cons input inputs ih =>
    rw [List.foldl_cons, ih, relabel_addInput, List.map_cons, List.foldl_cons]

end Relabel

/-- The endpoint that a draft lays out, with something in the place of its recipes. -/
def Draft.relabel (g : Option Recipe → Option β) (d : Draft) : Endpoint β :=
  (d.inputs.map (Input.relabel g)).foldl Endpoint.addInput
    { id := d.id, method := d.method, path := d.path, name := d.name, description := d.description
      tags := [d.tag], responses := d.responses.map fun r => r.response.relabel g }

def noExample : Option α → Option Unit := fun _ => none

def Parameter.outline (p : Parameter α) : Parameter Unit := p.relabel noExample

def Endpoint.outline (e : Endpoint α) : Endpoint Unit := e.relabel noExample

def Draft.outline (d : Draft) : Endpoint Unit := d.relabel noExample

theorem addInput_route (inputs : List (Input α)) (e : Endpoint α) :
    ((inputs.foldl Endpoint.addInput e).id, (inputs.foldl Endpoint.addInput e).method,
      (inputs.foldl Endpoint.addInput e).path) = (e.id, e.method, e.path) := by
  induction inputs generalizing e with
  | nil => rfl
  | cons input inputs ih =>
    rw [List.foldl_cons, ih]
    cases input <;> rfl

/-- What each step of a run shows of its result, the run shows of the list of results. -/
theorem map_run_mapM {f : α → StateM σ β} {g : β → γ} {h : α → γ}
    (each : ∀ a s, g ((f a).run s).1 = h a) (l : List α) (s : σ) :
    ((l.mapM f).run s).1.map g = l.map h := by
  induction l generalizing s with
  | nil => rfl
  | cons a l ih =>
    rw [List.mapM_cons, List.map_cons, ← ih ((f a).run s).2, ← each a s]
    rfl

section Draw

variable (cache : Dto.Cache) (listSize : Nat) {g : Option Json → Option β}
  {g' : Option Recipe → Option β}
  (shows : ∀ recipe s, g ((Recipe.draw? cache listSize recipe).run s).1 = g' recipe)

include shows

private theorem relabel_drawInput (input : Input Recipe) (s : Stream) :
    ((Draft.drawInput cache listSize input).run s).1.relabel g = input.relabel g' := by
  cases input with
  | parameter location p =>
    simp only [Input.relabel, Parameter.relabel, ← shows p.example? s]
    rfl
  | body b =>
    simp only [Input.relabel, Body.relabel, ← shows b.example? s]
    rfl

private theorem relabel_drawResponse (r : DraftResponse) (s : Stream) :
    ((Draft.drawResponse cache listSize r).run s).1.relabel g = r.response.relabel g' := by
  -- a recipe that is not shown moves the stream on before the one that is
  simp only [Response.relabel,
    ← shows r.response.example? ((Recipe.draw? cache listSize r.unshown).run s).2]
  rfl

/-- What a recipe alone decides about its example, a draft decides about its endpoint. -/
theorem relabel_draw (d : Draft) (s : Stream) :
    ((d.draw cache listSize).run s).1.relabel g = d.relabel g' := by
  have inputs := map_run_mapM (relabel_drawInput cache listSize shows) d.inputs s
  have responses := map_run_mapM (relabel_drawResponse cache listSize shows) d.responses
    ((d.inputs.mapM (Draft.drawInput cache listSize)).run s).2
  rw [Draft.relabel, ← inputs, ← responses]
  exact relabel_foldl_addInput g _ _

theorem relabel_extract (unit : SourceUnit) (seed : UInt64) :
    (unit.extract cache seed listSize).endpoints.map (Endpoint.relabel g) =
      (Draft.ofSource unit.head unit.methods).map (Draft.relabel g') :=
  map_run_mapM (relabel_draw cache listSize shows) _ _

omit shows

/-- The endpoint of a draft has the outline of the draft. -/
theorem outline_draw (d : Draft) (s : Stream) :
    ((d.draw cache listSize).run s).1.outline = d.outline :=
  relabel_draw cache listSize (fun _ _ => rfl) d s

/-- The endpoints of a source text are those of its drafts, up to examples. -/
theorem outline_extract (unit : SourceUnit) (seed : UInt64) :
    (unit.extract cache seed listSize).endpoints.map Endpoint.outline =
      (Draft.ofSource unit.head unit.methods).map Draft.outline :=
  relabel_extract cache listSize (fun _ _ => rfl) unit seed

end Draw

end ApiCollection
