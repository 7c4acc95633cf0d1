import ApiCollection.Proofs.Attribution
import Mathlib.Data.List.Forall2

/-!
# Endpoints and their methods

The endpoints of a source text are drawn from its mapped methods, one for each, in the order of the
methods.
-/

namespace ApiCollection

open ApiCollection.Random

section Lists

variable {α β σ : Type}

private theorem forall₂_filterMap (f : α → Option β) (l : List α) :
    List.Forall₂ (fun a b => f a = some b) (l.filter fun a => (f a).isSome) (l.filterMap f) := by
  induction l with
  | nil => exact .nil
  | cons a l ih =>
    cases found : f a with
    | none =>
      rw [List.filterMap_cons_none found, List.filter_cons_of_neg (by simp [found])]
      exact ih
    | some b =>
      rw [List.filterMap_cons_some found, List.filter_cons_of_pos (by simp [found])]
      exact .cons found ih

/-- Each step of a run starts somewhere. -/
theorem forall₂_run_mapM (f : α → StateM σ β) (l : List α) (s : σ) :
    List.Forall₂ (fun a b => ∃ s, b = ((f a).run s).1) l ((l.mapM f).run s).1 := by
  induction l generalizing s with
  | nil => exact .nil
  | cons a l ih =>
    rw [List.mapM_cons]
    exact .cons ⟨s, rfl⟩ (ih ((f a).run s).2)

private theorem forall₂_trans {R : α → β → Prop} {S : β → σ → Prop} {as : List α} {bs : List β}
    {cs : List σ} (first : List.Forall₂ R as bs) (second : List.Forall₂ S bs cs) :
    List.Forall₂ (fun a c => ∃ b, R a b ∧ S b c) as cs := by
  induction first generalizing cs with
  | nil => cases second; exact .nil
  | cons here _ ih =>
    cases second with
    | cons there rest => exact .cons ⟨_, here, there⟩ (ih rest)

end Lists

def Java.MethodHead.isMapped (m : Java.MethodHead) : Bool := (Mapping.of? m.directives).isSome

private theorem isSome_ofMethod? (className base : String) (m : Java.MethodHead) :
    (Draft.ofMethod? className base m).isSome = m.isMapped := by
  rw [Draft.ofMethod?, Java.MethodHead.isMapped]
  cases Mapping.of? m.directives <;> rfl

/-- Whether an endpoint is drawn from the draft of a method, somewhere in the stream of its file. -/
def SourceUnit.Draws (unit : SourceUnit) (cache : Dto.Cache) (listSize : Nat)
    (m : Java.MethodHead) (e : Endpoint Json) : Prop :=
  ∃ d s, Draft.ofMethod? unit.head.name (Mapping.basePath unit.head.directives) m = some d ∧
    e = ((d.draw cache listSize).run s).1

theorem SourceUnit.Draws.route {unit : SourceUnit} {cache : Dto.Cache} {listSize : Nat}
    {m : Java.MethodHead} {e : Endpoint Json} (h : unit.Draws cache listSize m e) :
    route? (Mapping.basePath unit.head.directives) m.name m.directives =
      some (e.id, e.method, e.path) := by
  obtain ⟨d, s, laidOut, rfl⟩ := h
  rw [draw_route, ← map_ofMethod? unit.head.name, laidOut, Option.map_some]

/-- There is one endpoint for each mapped method. -/
theorem forall₂_extract (unit : SourceUnit) (cache : Dto.Cache) (seed : UInt64) (listSize : Nat) :
    List.Forall₂ (unit.Draws cache listSize) (unit.methods.filter Java.MethodHead.isMapped)
      (unit.extract cache seed listSize).endpoints := by
  have drafts := forall₂_filterMap
    (Draft.ofMethod? unit.head.name (Mapping.basePath unit.head.directives)) unit.methods
  simp only [isSome_ofMethod?] at drafts
  have drawn := forall₂_run_mapM (Draft.draw cache listSize)
    (Draft.ofSource unit.head unit.methods) (Stream.ofSeed seed)
  refine (forall₂_trans drafts drawn).imp fun m e => ?_
  rintro ⟨d, found, s, here⟩
  exact ⟨d, s, found, here⟩

/-- A source text with one mapped method has one endpoint. -/
theorem exists_draws {unit : SourceUnit} {m : Java.MethodHead}
    (only : unit.methods.filter Java.MethodHead.isMapped = [m]) (cache : Dto.Cache) (seed : UInt64)
    (listSize : Nat) : ∃ e, (unit.extract cache seed listSize).endpoints = [e] ∧
      unit.Draws cache listSize m e := by
  have drawn := forall₂_extract unit cache seed listSize
  rw [only] at drawn
  generalize (unit.extract cache seed listSize).endpoints = endpoints at drawn
  cases drawn with
  | @cons _ e _ _ here rest =>
    cases rest
    exact ⟨e, rfl, here⟩

private theorem responses_foldl_addInput {α : Type} (inputs : List (Input α)) (e : Endpoint α) :
    (inputs.foldl Endpoint.addInput e).responses = e.responses := by
  induction inputs generalizing e with
  | nil => rfl
  | cons input inputs ih =>
    rw [List.foldl_cons, ih]
    cases input <;> rfl

/-- The responses are drawn behind the inputs. -/
theorem responses_draw (cache : Dto.Cache) (listSize : Nat) (d : Draft) (s : Stream) :
    ∃ s', ((d.draw cache listSize).run s).1.responses =
      ((d.responses.mapM (Draft.drawResponse cache listSize)).run s').1 :=
  ⟨((d.inputs.mapM (Draft.drawInput cache listSize)).run s).2, responses_foldl_addInput _ _⟩

end ApiCollection
