/-!
# Tables in insertion order

A table is a list of keys with values. Giving a present key a value replaces its value in place;
a new key goes to the end.
-/

namespace ApiCollection

/-- Keys with values, in order. -/
abbrev Table (α : Type) := List (String × α)

namespace Table

variable {α : Type}

def get? (t : Table α) (key : String) : Option α := t.lookup key

def has (t : Table α) (key : String) : Bool := t.any fun e => e.1 == key

def keys (t : Table α) : List String := t.map Prod.fst

/-- Gives a key a value: in place when the key is present, at the end otherwise. -/
def insert (t : Table α) (key : String) (value : α) : Table α :=
  match t with
  | [] => [(key, value)]
  | (k, v) :: rest => if k == key then (k, value) :: rest else (k, v) :: insert rest key value

/-- Gives a key a value unless it has one. -/
def insertNew (t : Table α) (key : String) (value : α) : Table α :=
  if t.has key then t else t ++ [(key, value)]

def ofList (entries : List (String × α)) : Table α :=
  entries.foldl (fun t e => insert t e.1 e.2) []

@[simp] theorem get?_nil (key : String) : get? ([] : Table α) key = none := rfl

theorem get?_cons (k : String) (v : α) (rest : Table α) (key : String) :
    get? ((k, v) :: rest) key = if key = k then some v else get? rest key := by
  by_cases h : key = k
  · simp [get?, h]
  · have hb : (key == k) = false := by simpa using h
    simp [get?, List.lookup_cons, h, hb]

/-- Looking up behind an insertion. -/
theorem get?_insert (t : Table α) (key other : String) (value : α) :
    (t.insert key value).get? other = if other = key then some value else t.get? other := by
  induction t with
  | nil => simp [insert, get?_cons]
  | cons e rest ih =>
    obtain ⟨k, v⟩ := e
    by_cases hk : k = key
    · subst hk
      simp only [insert, beq_self_eq_true, if_true, get?_cons]
      split <;> rfl
    · have hb : (k == key) = false := by simpa using hk
      simp only [insert, hb, Bool.false_eq_true, if_false, get?_cons, ih]
      by_cases ho : other = k
      · simp [ho, hk]
      · simp [ho]

/-- An insertion keeps the keys, and adds a new one at the end. -/
theorem keys_insert (t : Table α) (key : String) (value : α) :
    (t.insert key value).keys = if t.has key then t.keys else t.keys ++ [key] := by
  induction t with
  | nil => simp [insert, has, keys]
  | cons e rest ih =>
    obtain ⟨k, v⟩ := e
    by_cases hk : k = key
    · simp [insert, has, keys, hk]
    · have hb : (k == key) = false := by simpa using hk
      simp only [keys, has] at ih
      simp only [insert, hb, Bool.false_eq_true, if_false, keys, has, List.map_cons, List.any_cons,
        Bool.false_or, ih]
      split <;> simp_all

end Table
end ApiCollection
