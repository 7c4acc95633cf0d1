import ApiCollection.Table
import Mathlib.Algebra.GroupWithZero.Nat
import Mathlib.Data.List.Induction
import Mathlib.Data.List.Nodup

/-!
# Entries of tables

Inserting gives a key its value at one place: the keys stay distinct, and the entries behind it are
the new one and old ones.
-/

namespace ApiCollection.Table

variable {α : Type} {t : Table α}

theorem mem_keys_iff {key : String} : key ∈ t.keys ↔ t.has key = true := by
  simp [keys, has]

theorem get?_eq_none {key : String} (h : key ∉ t.keys) : t.get? key = none := by
  induction t with
  | nil => rfl
  | cons e rest ih =>
    obtain ⟨k, v⟩ := e
    simp only [keys, List.map_cons, List.mem_cons, not_or] at h
    rw [get?_cons, if_neg h.1]
    exact ih h.2

theorem get?_append (t u : Table α) (key : String) :
    get? (t ++ u) key = (t.get? key).or (u.get? key) :=
  List.lookup_append

private theorem mem_keys_insert {key other : String} {value : α} :
    other ∈ (t.insert key value).keys ↔ other ∈ t.keys ∨ other = key := by
  rw [keys_insert]
  split
  · rename_i has
    rw [← mem_keys_iff] at has
    constructor
    · exact .inl
    · rintro (member | rfl)
      · exact member
      · exact has
  · rw [List.mem_append, List.mem_singleton]

theorem nodup_keys_insert (h : t.keys.Nodup) (key : String) (value : α) :
    (t.insert key value).keys.Nodup := by
  rw [keys_insert]
  split
  · exact h
  · rename_i new
    rw [← mem_keys_iff] at new
    rw [List.nodup_append]
    refine ⟨h, List.nodup_singleton key, ?_⟩
    intro a ha b hb same
    rw [List.mem_singleton] at hb
    rw [same, hb] at ha
    exact new ha

private theorem keys_foldl_insert (entries : List (String × α)) (h : t.keys.Nodup) :
    (entries.foldl (fun t e => insert t e.1 e.2) t).keys.Nodup ∧
      ∀ key, key ∈ (entries.foldl (fun t e => insert t e.1 e.2) t).keys ↔
        key ∈ t.keys ∨ key ∈ entries.map Prod.fst := by
  induction entries generalizing t with
  | nil => simp [h]
  | cons e entries ih =>
    obtain ⟨nodup, mem⟩ := ih (nodup_keys_insert h e.1 e.2)
    refine ⟨nodup, ?_⟩
    intro key
    rw [List.foldl_cons, mem key, mem_keys_insert, List.map_cons, List.mem_cons, or_assoc]

/-- A table of entries has the key of every entry once. -/
theorem keys_ofList (entries : List (String × α)) :
    (ofList entries).keys.Nodup ∧ ∀ key, key ∈ (ofList entries).keys ↔ key ∈ entries.map Prod.fst := by
  obtain ⟨nodup, mem⟩ := keys_foldl_insert entries (t := []) List.nodup_nil
  refine ⟨nodup, ?_⟩
  intro key
  rw [ofList, mem key]
  simp [keys]

theorem eraseDups_concat {κ : Type} [BEq κ] [LawfulBEq κ] (keys : List κ) (key : κ) :
    (keys ++ [key]).eraseDups =
      if key ∈ keys then keys.eraseDups else keys.eraseDups ++ [key] := by
  rw [List.eraseDups_append]
  split <;> simp [List.removeAll, List.eraseDups_cons, *]

theorem nodup_eraseDups {κ : Type} [BEq κ] [LawfulBEq κ] (keys : List κ) :
    keys.eraseDups.Nodup := by
  induction keys using List.reverseRecOn with
  | nil => simp
  | append_singleton keys key ih =>
    rw [eraseDups_concat]
    split
    · exact ih
    · rename_i new
      rw [← List.mem_eraseDups] at new
      rw [List.nodup_append]
      refine ⟨ih, List.nodup_singleton key, ?_⟩
      intro other member last isLast same
      rw [List.mem_singleton.1 isLast] at same
      exact new (same ▸ member)

/-- A table whose keys are some keys in the order in which they are first met, with one more. -/
theorem keys_insert_of_eraseDups {keys : List String} (h : t.keys = keys.eraseDups) (key : String)
    (value : α) : (t.insert key value).keys = (keys ++ [key]).eraseDups := by
  have known : t.has key = true ↔ key ∈ keys := by
    rw [← mem_keys_iff, h, List.mem_eraseDups]
  rw [keys_insert, eraseDups_concat, h]
  simp only [known]

theorem get?_tabulated (keys : List String) (value : String → α) (key : String) :
    get? (keys.map fun k => (k, value k)) key = if key ∈ keys then some (value key) else none := by
  induction keys with
  | nil => rfl
  | cons k keys ih =>
    rw [List.map_cons, get?_cons, ih]
    by_cases same : key = k <;> simp [same]

/-- Inserting into a table that gives each of some keys its value. -/
theorem insert_tabulated {keys : List String} (nodup : keys.Nodup) (value : String → α)
    (key : String)
    (v : α) : insert (keys.map fun k => (k, value k)) key v =
      (if key ∈ keys then keys else keys ++ [key]).map fun k =>
        (k, if k = key then v else value k) := by
  induction keys with
  | nil => simp [insert]
  | cons k keys ih =>
    obtain ⟨new, nodup⟩ := List.nodup_cons.1 nodup
    rw [List.map_cons, insert]
    by_cases same : k = key
    · subst same
      have others : ∀ other ∈ keys, other ≠ k := fun other member eq => new (eq ▸ member)
      simp +contextual [others]
    · rw [if_neg (by simpa using same), ih nodup]
      by_cases known : key ∈ keys <;> simp [known, same, Ne.symm same]

theorem has_iff {key : String} : t.has key = true ↔ ∃ e ∈ t, e.1 = key := by
  simp [has, List.any_eq_true]

theorem has_insertNew {key other : String} {value : α} :
    (t.insertNew key value).has other = true ↔ t.has other = true ∨ key = other := by
  rw [insertNew]
  split
  · constructor
    · exact .inl
    · rintro (has | rfl)
      · exact has
      · assumption
  · rw [has_iff, has_iff]
    simp [or_and_right, exists_or]

theorem insertNew_of_has {key : String} {value : α} (h : t.has key = true) :
    t.insertNew key value = t := if_pos h

theorem has_append {new : Table α} {key : String} :
    has (t ++ new) key = true ↔ t.has key = true ∨ has new key = true := by
  simp [has, List.any_append]

theorem get?_eq_some_of_mem {key : String} {value : α} (nodup : t.keys.Nodup)
    (member : (key, value) ∈ t) : t.get? key = some value := by
  induction t with
  | nil => cases member
  | cons e rest ih =>
    obtain ⟨k, v⟩ := e
    rw [keys, List.map_cons, List.nodup_cons] at nodup
    rw [get?_cons]
    obtain same | later := List.mem_cons.1 member
    · rw [Prod.mk.injEq] at same
      rw [if_pos same.1, same.2]
    · have other : key ≠ k := by
        rintro rfl
        exact nodup.1 (List.mem_map.2 ⟨_, later, rfl⟩)
      rw [if_neg other, ih nodup.2 later]

theorem get?_map_values {β : Type} (f : α → β) (t : Table α) (key : String) :
    get? (t.map fun e => (e.1, f e.2)) key = (t.get? key).map f := by
  induction t with
  | nil => rfl
  | cons e rest ih =>
    rw [List.map_cons, get?_cons, get?_cons, ih]
    split <;> rfl

theorem map_insert (f : String → α → α) (t : Table α) (key : String) (value : α) :
    (t.insert key value).map (fun e => (e.1, f e.1 e.2)) =
      insert (t.map fun e => (e.1, f e.1 e.2)) key (f key value) := by
  induction t with
  | nil => rfl
  | cons e t ih =>
    obtain ⟨k, v⟩ := e
    by_cases same : k = key
    · subst same
      simp [insert]
    · simpa [insert, same] using ih

theorem map_ofList (f : String → α → α) (entries : List (String × α)) :
    (ofList entries).map (fun e => (e.1, f e.1 e.2)) =
      ofList (entries.map fun e => (e.1, f e.1 e.2)) := by
  have fold (t : Table α) : (entries.foldl (fun t e => insert t e.1 e.2) t).map
      (fun e => (e.1, f e.1 e.2)) = (entries.map fun e => (e.1, f e.1 e.2)).foldl
        (fun t e => insert t e.1 e.2) (t.map fun e => (e.1, f e.1 e.2)) := by
    induction entries generalizing t with
    | nil => rfl
    | cons e entries ih => rw [List.foldl_cons, ih, map_insert, List.map_cons, List.foldl_cons]
  exact fold []

/-- An insertion puts one value in the place of another one, or of none. -/
theorem sum_insert (weight : α → Nat) (t : Table α) (key : String) (value : α) :
    ((t.insert key value).map fun e => weight e.2).sum + ((t.get? key).map weight).getD 0 =
      (t.map fun e => weight e.2).sum + weight value := by
  induction t with
  | nil => simp [insert]
  | cons e rest ih =>
    obtain ⟨k, v⟩ := e
    rw [insert, get?_cons]
    by_cases same : k = key
    · simp [same]
      omega
    · simp only [beq_iff_eq, same, Ne.symm same, if_false, List.map_cons, List.sum_cons]
      omega

theorem mem_of_get?_eq_some {key : String} {value : α} (h : t.get? key = some value) :
    (key, value) ∈ t := by
  induction t with
  | nil => cases h
  | cons e rest ih =>
    obtain ⟨k, v⟩ := e
    rw [get?_cons] at h
    split at h
    · rename_i same
      rw [Option.some.injEq] at h
      rw [same, h]
      exact List.mem_cons_self
    · exact List.mem_cons_of_mem _ (ih h)

/-- An entry behind an insertion is the new one or an old one. -/
theorem mem_insert {key other : String} {value v : α} (h : (other, v) ∈ t.insert key value) :
    (other = key ∧ v = value) ∨ (other, v) ∈ t := by
  induction t with
  | nil => simpa [insert] using h
  | cons e rest ih =>
    obtain ⟨k, w⟩ := e
    rw [insert] at h
    split at h
    · rename_i same
      obtain new | old := List.mem_cons.1 h
      · rw [Prod.mk.injEq] at new
        exact .inl ⟨new.1.trans (beq_iff_eq.1 same), new.2⟩
      · exact .inr (List.mem_cons_of_mem _ old)
    · obtain first | later := List.mem_cons.1 h
      · exact .inr (List.mem_cons.2 (.inl first))
      · exact (ih later).imp_right (List.mem_cons_of_mem _)

theorem mem_insertNew {key other : String} {value v : α} (h : (other, v) ∈ t.insertNew key value) :
    (other, v) ∈ t ∨ (other = key ∧ v = value) := by
  rw [insertNew] at h
  split at h
  · exact .inl h
  · simpa using h

private theorem mem_foldl_insert {entries : List (String × α)} {e : String × α}
    (h : e ∈ entries.foldl (fun t e => insert t e.1 e.2) t) : e ∈ t ∨ e ∈ entries := by
  induction entries generalizing t with
  | nil => exact .inl h
  | cons first entries ih =>
    rcases ih h with old | new
    · rcases mem_insert old with ⟨key, value⟩ | old
      · exact .inr (List.mem_cons.2 (.inl (Prod.ext key value)))
      · exact .inl old
    · exact .inr (List.mem_cons_of_mem _ new)

/-- An entry of a table of entries is one of them. -/
theorem mem_ofList {entries : List (String × α)} {e : String × α} (h : e ∈ ofList entries) :
    e ∈ entries :=
  (mem_foldl_insert h).resolve_left List.not_mem_nil

end ApiCollection.Table
