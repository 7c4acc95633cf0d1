import ApiCollection.Proofs.TableEntries
import Mathlib.Data.List.Forall2

/-!
# Related values

Values that may be missing, lists, and tables that are related entry by entry. What is looked up in
them or computed from them is related again, or is the same.
-/

namespace ApiCollection

variable {α β : Type}

theorem rel_or {R : α → α → Prop} {a b c d : Option α} (first : Option.Rel R a b)
    (second : Option.Rel R c d) : Option.Rel R (a.or c) (b.or d) := by
  cases first with
  | none => exact second
  | some related => exact .some related

theorem rel_bind {R : α → α → Prop} {S : β → β → Prop} {a b : Option α} {f g : α → Option β}
    (h : Option.Rel R a b) (next : ∀ x y, R x y → Option.Rel S (f x) (g y)) :
    Option.Rel S (a.bind f) (b.bind g) := by
  cases h with
  | none => exact .none
  | some related => exact next _ _ related

theorem rel_map {R : α → α → Prop} {S : β → β → Prop} {a b : Option α} {f g : α → β}
    (h : Option.Rel R a b) (next : ∀ x y, R x y → S (f x) (g y)) :
    Option.Rel S (a.map f) (b.map g) := by
  cases h with
  | none => exact .none
  | some related => exact .some (next _ _ related)

theorem rel_refl (a : Option α) : Option.Rel Eq a a := by
  cases a with
  | none => exact .none
  | some x => exact .some rfl

theorem rel_mono {R S : α → α → Prop} {a b : Option α} (h : Option.Rel R a b)
    (weaker : ∀ x y, R x y → S x y) : Option.Rel S a b := by
  cases h with
  | none => exact .none
  | some related => exact .some (weaker _ _ related)

theorem eq_of_rel {R : α → α → Prop} {a b : Option α} (h : Option.Rel R a b)
    (same : ∀ x y, R x y → x = y) : a = b := by
  cases h with
  | none => rfl
  | some related => rw [same _ _ related]

theorem isSome_eq_of_rel {R : α → α → Prop} {a b : Option α} (h : Option.Rel R a b) :
    a.isSome = b.isSome := by
  cases h <;> rfl

theorem rel_getD {R : α → α → Prop} {a b : Option (List α)} (h : Option.Rel (List.Forall₂ R) a b) :
    List.Forall₂ R (a.getD []) (b.getD []) := by
  cases h with
  | none => exact .nil
  | some related => exact related

theorem map_eq_of_rel {R : α → α → Prop} {f g : α → β} {xs ys : List α}
    (h : List.Forall₂ R xs ys) (same : ∀ x y, R x y → f x = g y) : xs.map f = ys.map g := by
  induction h with
  | nil => rfl
  | cons first _ ih => rw [List.map_cons, List.map_cons, same _ _ first, ih]

/-- Functions that agree where two others do agree on lists where these do. -/
theorem map_eq_of_map_eq {γ : Type} {R : α → α → Prop} {f g : α → γ} {f' g' : α → β}
    {xs ys : List α} (h : List.Forall₂ R xs ys) (same : xs.map f = ys.map g)
    (step : ∀ x y, R x y → f x = g y → f' x = g' y) : xs.map f' = ys.map g' := by
  induction h with
  | nil => rfl
  | cons first _ ih =>
    rw [List.map_cons, List.map_cons, List.cons.injEq] at same
    rw [List.map_cons, List.map_cons, step _ _ first same.1, ih same.2]

theorem rel_find? {R : α → α → Prop} {p : α → Bool} {xs ys : List α} (h : List.Forall₂ R xs ys)
    (same : ∀ x y, R x y → p x = p y) : Option.Rel R (xs.find? p) (ys.find? p) := by
  induction h with
  | nil => exact .none
  | cons first _ ih =>
    rw [List.find?_cons, List.find?_cons, same _ _ first]
    split
    · exact .some first
    · exact ih

theorem rel_get? {R : String → α → α → Prop} {t t' : Table α}
    (h : List.Forall₂ (fun e e' => e.1 = e'.1 ∧ R e.1 e.2 e'.2) t t') (key : String) :
    Option.Rel (R key) (t.get? key) (t'.get? key) := by
  induction h with
  | nil => exact .none
  | @cons e e' rest rest' first _ ih =>
    obtain ⟨k, v⟩ := e
    obtain ⟨k', v'⟩ := e'
    obtain ⟨rfl, related⟩ : k = k' ∧ R k v v' := first
    rw [Table.get?_cons, Table.get?_cons]
    split
    · rename_i same
      exact .some (same ▸ related)
    · exact ih

theorem rel_getElem? {R : α → α → Prop} {xs ys : List α} (h : List.Forall₂ R xs ys) (i : Nat) :
    Option.Rel R xs[i]? ys[i]? := by
  induction h generalizing i with
  | nil => exact .none
  | cons first _ ih =>
    cases i with
    | zero => exact .some first
    | succ i => exact ih i

end ApiCollection
