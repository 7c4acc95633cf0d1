import ApiCollection.Example.Value
import ApiCollection.Java.TypeShape

/-!
# Shapes of example values

The value that is drawn for a type has the shape of the type: both follow the type through arrays,
collections and wrappers, and the values of the scalars have the kinds of the table. Where a
wrapper stands directly around `Void`, the value is null.
-/

namespace ApiCollection

open Schema Java

def Json.isOfKind : Kind → Json → Bool
  | .string, .string _ => true
  | .integer, .number (.integer _) => true
  | .number, .number _ => true
  | .boolean, .bool _ => true
  | .object, .object _ => true
  | _, _ => false

namespace Java.TypeExpr

mutual

/-- The type behind wrappers; none if a wrapper stands directly around `Void`. -/
def unwrapped? : TypeExpr → Option TypeExpr
  | ⟨base, args, depth⟩ =>
    if depth == 0 && TypeFamily.of base == .wrapper then
      if (args.head?.getD .object).base == "Void" then none else firstUnwrapped? args
    else some ⟨base, args, depth⟩

def firstUnwrapped? : List TypeExpr → Option TypeExpr
  | [] => some .object
  | t :: _ => t.unwrapped?

end

def item (t : TypeExpr) : TypeExpr := if t.arrayDepth == 0 then t.firstArg else t.element

private theorem unwrapped?_of_suffix (base : String) (args : List TypeExpr) (depth : Nat) :
    unwrapped? ⟨base, args, depth + 1⟩ = some ⟨base, args, depth + 1⟩ := by
  simp [unwrapped?]

theorem unwrapped?_of_family {base : String} {family : TypeFamily} (h : TypeFamily.of base = family)
    (h' : family ≠ .wrapper) (args : List TypeExpr) (depth : Nat) :
    unwrapped? ⟨base, args, depth⟩ = some ⟨base, args, depth⟩ := by
  simp [unwrapped?, h, h']

theorem unwrapped?_object : object.unwrapped? = some object := by
  have family : TypeFamily.of "Object" = .scalar .object none := by decide
  exact unwrapped?_of_family family (by decide) [] 0

private theorem firstUnwrapped?_eq (args : List TypeExpr) :
    firstUnwrapped? args = (args.head?.getD object).unwrapped? := by
  cases args with
  | nil => simp [firstUnwrapped?, unwrapped?_object]
  | cons t rest => simp [firstUnwrapped?]

end Java.TypeExpr

private theorem Java.mem_scalarTypes_of_family {base : String} {kind : Kind}
    {format : Option String}
    (h : TypeFamily.of base = .scalar kind format) : (base, kind, format) ∈ scalarTypes := by
  unfold TypeFamily.of at h
  split at h
  · rename_i found
    cases h
    obtain ⟨before, behind, entries, -⟩ := List.lookup_eq_some_iff.1 found
    simp [entries]
  · (repeat' split at h) <;> cases h

/-- Whether a value that stands for a type has a shape. Nothing but null stands for a type that is
wrapped `Void`, whatever the shape. -/
def Schema.Descriptor.fits (d : Descriptor) (t : TypeExpr) (v : Json) : Bool :=
  match t.unwrapped? with
  | none => v.isNull
  | some u => match d with
    | .primitive kind _ => v.isOfKind kind
    | .map => v.isOfKind .object
    | .array item => match v with
      | .array [first, second] => item.fits u.item first && item.fits u.item second
      | _ => false
    | .reference _ => v.isOfKind .object || v.isNull

namespace Schema.Descriptor

variable {t u : TypeExpr} {v : Json}

private theorem fits_congr (h : t.unwrapped? = u.unwrapped?) (d : Descriptor) :
    d.fits t v = d.fits u v := by
  cases d <;> rw [fits, fits, h]

private theorem fits_wrappedVoid (h : t.unwrapped? = none) (d : Descriptor) :
    d.fits t v = v.isNull := by
  cases d <;> rw [fits, h]

theorem fits_primitive (h : t.unwrapped? = some u) (kind : Kind) (format : Option String) :
    (primitive kind format).fits t v = v.isOfKind kind := by
  rw [fits, h]

private theorem fits_map (h : t.unwrapped? = some u) : map.fits t v = v.isOfKind .object := by
  rw [fits, h]

private theorem fits_pair (h : t.unwrapped? = some u) (item : Descriptor) (first second : Json) :
    (array item).fits t (.array [first, second]) =
      (item.fits u.item first && item.fits u.item second) := by
  rw [fits, h]

private theorem fits_reference (h : t.unwrapped? = some u) (name : String) :
    (reference name).fits t v = (v.isOfKind .object || v.isNull) := by
  rw [fits, h]

end Schema.Descriptor

namespace Example

open ApiCollection.Random

/-- Whether all values of a draw have a property, wherever the stream stands. -/
def Yields {α : Type} (draw : Draw α) (p : α → Prop) : Prop := ∀ s, p (draw.run s).1

section Yields

variable {α β : Type} {p : α → Prop}

theorem Yields.pure {a : α} (h : p a) : Yields (pure a) p := fun _ => h

theorem Yields.map {draw : Draw β} {f : β → α} (h : ∀ b, p (f b)) : Yields (f <$> draw) p :=
  fun _ => h _

theorem Yields.bind {draw : Draw β} {f : β → Draw α} {q : β → Prop} (h : Yields draw q)
    (h' : ∀ b, q b → Yields (f b) p) : Yields (draw >>= f) p :=
  fun _ => h' _ (h _) _

end Yields

/-- Every scalar of the table has values of its kind. -/
theorem yields_scalar : ∀ e ∈ scalarTypes, Yields (scalar e.1) fun v => v.isOfKind e.2.1 := by
  simp only [scalarTypes, List.forall_mem_cons]
  unfold scalar
  simp [number, amount, Json.int, Json.isOfKind, Yields.map, Yields.pure]

theorem Yields.pair {draw : Draw Json} {d : Descriptor} {t : TypeExpr}
    (plain : t.unwrapped? = some t) (h : Yields draw fun v => d.fits t.item v) :
    Yields (pair draw) fun v => (Descriptor.array d).fits t v := by
  refine h.bind fun first hFirst => h.bind fun second hSecond => .pure ?_
  rw [Descriptor.fits_pair plain, hFirst, hSecond, Bool.and_self]

private theorem yields_suffixed {base : String} {args : List TypeExpr} {d : Descriptor}
    {draw : Draw Json}
    (h : Yields draw fun v => d.fits ⟨base, args, 0⟩ v) (depth : Nat) :
    Yields (suffixed base draw depth) fun v =>
      (TypeExpr.suffixed base d depth).fits ⟨base, args, depth⟩ v := by
  fun_induction suffixed base draw depth with
  | case1 => exact h
  | case2 bytes =>
    rw [TypeExpr.suffixed, if_pos bytes]
    apply Yields.pure
    rw [Descriptor.fits_primitive (TypeExpr.unwrapped?_of_suffix base args 0), Json.isOfKind]
  | case3 bytes =>
    rw [TypeExpr.suffixed, if_neg bytes]
    exact .pair (TypeExpr.unwrapped?_of_suffix base args 0) h
  | case4 depth ih => exact .pair (TypeExpr.unwrapped?_of_suffix base args (depth + 1)) ih

variable {named : String → Draw Json}

mutual

/-- The value of a type has its shape if those of model classes are objects or null. -/
theorem yields_ofType (h : ∀ name, Yields (named name) fun v => v.isOfKind .object || v.isNull) :
    ∀ t : TypeExpr, Yields (ofType named t) fun v => t.shape.fits t v
  | ⟨base, args, depth⟩ => by
    rw [ofType, TypeExpr.shape]
    -- Both sides wrap the suffixes around the base type, whose families are left.
    apply yields_suffixed
    have plain {family : TypeFamily} (here : TypeFamily.of base = family)
        (other : family ≠ .wrapper) : TypeExpr.unwrapped? ⟨base, args, 0⟩ = some ⟨base, args, 0⟩ :=
      TypeExpr.unwrapped?_of_family here other args 0
    have first := yields_ofFirst h args
    cases family : TypeFamily.of base with
    | scalar kind format =>
      simp only [Descriptor.fits_primitive (plain family (by simp))]
      exact yields_scalar _ (mem_scalarTypes_of_family family)
    | collection => exact .pair (plain family (by decide)) first
    | stream => exact .pair (plain family (by decide)) first
    | map =>
      simp only [Descriptor.fits_map (plain family (by decide))]
      exact .pure rfl
    | wrapper =>
      by_cases void : (args.head?.getD .object).base = "Void"
      · have nothing : TypeExpr.unwrapped? ⟨base, args, 0⟩ = none := by
          simp [TypeExpr.unwrapped?, family, void]
        simp only [void, beq_self_eq_true, if_true, Descriptor.fits_wrappedVoid nothing]
        exact .pure rfl
      · have inner : TypeExpr.unwrapped? ⟨base, args, 0⟩ =
            (args.head?.getD .object).unwrapped? := by
          simp [TypeExpr.unwrapped?, family, void, TypeExpr.firstUnwrapped?_eq]
        simpa [void, Descriptor.fits_congr inner] using first
    | named =>
      simp only [Descriptor.fits_reference (plain family (by decide))]
      exact h base

theorem yields_ofFirst (h : ∀ name, Yields (named name) fun v => v.isOfKind .object || v.isNull) :
    ∀ args : List TypeExpr, Yields (ofFirst named args) fun v =>
      (TypeExpr.firstShape args).fits (args.head?.getD .object) v
  | [] => by
    simp only [List.head?_nil, Option.getD_none, TypeExpr.firstShape,
      Descriptor.fits_primitive TypeExpr.unwrapped?_object]
    exact yields_scalar ("Object", .object, none) (by simp [scalarTypes])
  | t :: _ => yields_ofType h t

end

/-- The value of a model class is an object, or null. -/
theorem yields_ofName (cache : Dto.Cache) (levels : Nat) (name : String) :
    Yields (ofName cache levels name) fun v => v.isOfKind .object || v.isNull := by
  cases levels with
  | zero => exact .pure rfl
  | succ levels =>
    rw [ofName]
    split
    · exact .pure rfl
    · exact .map fun members => rfl

/-- Wherever the stream stands and however deep inside of model classes, the value of a type has the
shape of the type, up to null for wrapped `Void`. -/
theorem fits_ofType (cache : Dto.Cache) (s : Stream) (depth : Nat) (t : TypeExpr) :
    t.shape.fits t ((ofType (ofName cache (maxDtoDepth - depth)) t).run s).1 :=
  yields_ofType (yields_ofName cache _) t s

/-- Null stands for the items of an array of wrapped `Void`, and nothing else does. -/
example : let t : TypeExpr := ⟨"Mono", [.simple "Void"], 1⟩
    t.shape.fits t (.array [.null, .null]) = true ∧
      t.shape.fits t (.array [.null, .object []]) = false := by decide

end Example
end ApiCollection
