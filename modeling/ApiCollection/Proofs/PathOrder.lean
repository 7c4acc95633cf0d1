import ApiCollection.Files.Path
import Mathlib.Data.String.Basic

/-!
# The order of paths

Paths are compared part by part. The order is a strict linear one on the lists of parts, so that
two paths are incomparable exactly when they have the same parts.
-/

namespace ApiCollection.Path

namespace Part

theorem isBefore_irrefl (a : Part) : a.isBefore a = false := by
  cases a <;> simp [isBefore, rank]

/-- Parts are ordered by their kinds, and two names by their texts. -/
theorem isBefore_iff {a b : Part} : a.isBefore b = true ↔
    a.rank < b.rank ∨ ∃ x y, a = .name x ∧ b = .name y ∧ x < y := by
  cases a <;> cases b <;> simp [isBefore, rank]

private theorem isBefore_trans {a b c : Part} (first : a.isBefore b = true)
    (second : b.isBefore c = true) :
    a.isBefore c = true := by
  rw [isBefore_iff] at *
  rcases first with hab | ⟨x, y, rfl, rfl, hxy⟩
  · rcases second with hbc | ⟨y, z, rfl, rfl, -⟩
    · exact .inl (hab.trans hbc)
    · exact .inl hab
  · rcases second with hbc | ⟨_, z, hb, rfl, hyz⟩
    · exact .inl hbc
    · cases hb
      exact .inr ⟨x, z, rfl, rfl, String.lt_trans hxy hyz⟩

private theorem isBefore_or_eq_or (a b : Part) :
    a.isBefore b = true ∨ a = b ∨ b.isBefore a = true := by
  cases a <;> cases b
  case name.name x y =>
    simp only [isBefore, decide_eq_true_eq, name.injEq]
    exact lt_trichotomy x y
  all_goals simp [isBefore, rank]

end Part

theorem partsBefore_irrefl (as : List Part) : partsBefore as as = false := by
  induction as with
  | nil => rfl
  | cons a as ih => simp [partsBefore, Part.isBefore_irrefl, ih]

theorem partsBefore_cons_iff {a b : Part} {as bs : List Part} :
    partsBefore (a :: as) (b :: bs) = true ↔
      a.isBefore b = true ∨ a = b ∧ partsBefore as bs = true := by
  simp [partsBefore]

theorem partsBefore_trans {as bs cs : List Part} (first : partsBefore as bs = true)
    (second : partsBefore bs cs = true) : partsBefore as cs = true := by
  induction as generalizing bs cs with
  | nil =>
    cases cs with
    | nil => simp [partsBefore] at second
    | cons => rfl
  | cons a as ih =>
    cases bs with
    | nil => simp [partsBefore] at first
    | cons b bs =>
      cases cs with
      | nil => simp [partsBefore] at second
      | cons c cs =>
        rw [partsBefore_cons_iff] at first second ⊢
        rcases first with hab | ⟨rfl, hab⟩
        · rcases second with hbc | ⟨rfl, -⟩
          · exact .inl (Part.isBefore_trans hab hbc)
          · exact .inl hab
        · rcases second with hbc | ⟨rfl, hbc⟩
          · exact .inl hbc
          · exact .inr ⟨rfl, ih hab hbc⟩

theorem partsBefore_or_eq_or (as bs : List Part) :
    partsBefore as bs = true ∨ as = bs ∨ partsBefore bs as = true := by
  induction as generalizing bs with
  | nil => cases bs <;> simp [partsBefore]
  | cons a as ih =>
    cases bs with
    | nil => simp [partsBefore]
    | cons b bs =>
      rw [partsBefore_cons_iff, partsBefore_cons_iff]
      rcases Part.isBefore_or_eq_or a b with h | rfl | h
      · exact .inl (.inl h)
      · rcases ih bs with h | rfl | h
        · exact .inl (.inr ⟨rfl, h⟩)
        · exact .inr (.inl rfl)
        · exact .inr (.inr (.inr ⟨rfl, h⟩))
      · exact .inr (.inr (.inl h))

theorem partsBefore_asymm {as bs : List Part} (h : partsBefore as bs = true) :
    partsBefore bs as = false := by
  by_contra reverse
  have loop := partsBefore_trans h (Bool.not_eq_false _ ▸ reverse)
  rw [partsBefore_irrefl] at loop
  cases loop

/-- If `as` does not come after `bs` and `bs` not after `cs`, then `as` does not come after `cs`. -/
theorem not_partsBefore_trans {as bs cs : List Part} (first : partsBefore bs as = false)
    (second : partsBefore cs bs = false) : partsBefore cs as = false := by
  rcases partsBefore_or_eq_or as bs with before | rfl | after
  · by_contra third
    have between := partsBefore_trans (Bool.not_eq_false _ ▸ third) before
    rw [second] at between
    cases between
  · exact second
  · rw [after] at first
    cases first

theorem isBefore_irrefl (a : String) : isBefore a a = false := partsBefore_irrefl _

theorem isBefore_trans {a b c : String} (first : isBefore a b = true)
    (second : isBefore b c = true) :
    isBefore a c = true :=
  partsBefore_trans first second

theorem isBefore_asymm {a b : String} (h : isBefore a b = true) : isBefore b a = false :=
  partsBefore_asymm h

/-- Two paths that are not the same, part by part, stand in a definite order. -/
theorem isBefore_or_of_parts_ne {a b : String} (h : parts a ≠ parts b) :
    isBefore a b = true ∨ isBefore b a = true := by
  rcases partsBefore_or_eq_or (parts a) (parts b) with hab | heq | hba
  · exact .inl hab
  · exact absurd heq h
  · exact .inr hba

theorem not_isBefore_trans {a b c : String} (first : isBefore b a = false)
    (second : isBefore c b = false) : isBefore c a = false :=
  not_partsBefore_trans first second

end ApiCollection.Path
