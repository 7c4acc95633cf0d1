import ApiCollection.Table

/-!
# JSON values

Objects keep the order of their members. A number is an integer, or a binary64 number given by
its word, so that equality of values is decidable and tells the two zeros apart.

A record is written as an object, or as an array of its fields in order. An object may hold other
members besides, but no field twice; an array may leave out fields at its end. What a missing
field means is decided where the field is read.
-/

namespace ApiCollection

inductive Json.Number where
  | integer (n : Int)
  /-- A finite binary64 number with that word. -/
  | real (bits : UInt64)
  deriving DecidableEq, Repr

inductive Json where
  | null
  | bool (b : Bool)
  | number (n : Json.Number)
  | string (s : String)
  | array (items : List Json)
  | object (members : List (String × Json))
  deriving Repr

namespace Json

instance : Inhabited Json := ⟨.null⟩

abbrev Members := Table Json

mutual

def decEq : (a b : Json) → Decidable (a = b)
  | .null, .null => isTrue rfl
  | .bool a, .bool b =>
    if h : a = b then isTrue (by rw [h]) else isFalse fun e => h (by injection e)
  | .number a, .number b =>
    if h : a = b then isTrue (by rw [h]) else isFalse fun e => h (by injection e)
  | .string a, .string b =>
    if h : a = b then isTrue (by rw [h]) else isFalse fun e => h (by injection e)
  | .array a, .array b =>
    match decEqItems a b with
    | isTrue h => isTrue (by rw [h])
    | isFalse h => isFalse fun e => h (by injection e)
  | .object a, .object b =>
    match decEqMembers a b with
    | isTrue h => isTrue (by rw [h])
    | isFalse h => isFalse fun e => h (by injection e)
  | .null, .bool _ | .null, .number _ | .null, .string _ | .null, .array _ | .null, .object _
  | .bool _, .null | .bool _, .number _ | .bool _, .string _ | .bool _, .array _
  | .bool _, .object _ | .number _, .null | .number _, .bool _ | .number _, .string _
  | .number _, .array _ | .number _, .object _ | .string _, .null | .string _, .bool _
  | .string _, .number _ | .string _, .array _ | .string _, .object _ | .array _, .null
  | .array _, .bool _ | .array _, .number _ | .array _, .string _ | .array _, .object _
  | .object _, .null | .object _, .bool _ | .object _, .number _ | .object _, .string _
  | .object _, .array _ => isFalse fun e => nomatch e

def decEqItems : (a b : List Json) → Decidable (a = b)
  | [], [] => isTrue rfl
  | [], _ :: _ | _ :: _, [] => isFalse fun e => nomatch e
  | a :: as, b :: bs =>
    match decEq a b, decEqItems as bs with
    | isTrue h, isTrue t => isTrue (by rw [h, t])
    | isFalse h, _ => isFalse fun e => h (List.cons.inj e).1
    | _, isFalse t => isFalse fun e => t (List.cons.inj e).2

def decEqMembers : (a b : List (String × Json)) → Decidable (a = b)
  | [], [] => isTrue rfl
  | [], _ :: _ | _ :: _, [] => isFalse fun e => nomatch e
  | (k, a) :: as, (l, b) :: bs =>
    if hk : k = l then
      match decEq a b, decEqMembers as bs with
      | isTrue h, isTrue t => isTrue (by rw [hk, h, t])
      | isFalse h, _ => isFalse fun e => h (Prod.mk.inj (List.cons.inj e).1).2
      | _, isFalse t => isFalse fun e => t (List.cons.inj e).2
    else isFalse fun e => hk (Prod.mk.inj (List.cons.inj e).1).1

end

instance : DecidableEq Json := decEq

instance : OfNat Json n := ⟨.number (.integer n)⟩

def int (n : Int) : Json := .number (.integer n)

def string? : Json → Option String
  | .string s => some s
  | _ => none

def items? : Json → Option (List Json)
  | .array items => some items
  | _ => none

def members? : Json → Option Members
  | .object members => some members
  | _ => none

def bool? : Json → Option Bool
  | .bool b => some b
  | _ => none

def get? (j : Json) (key : String) : Option Json := j.members?.bind (·.get? key)

def getString? (j : Json) (key : String) : Option String := (j.get? key).bind string?

/-- The items of a member that is an array; none when it is anything else. -/
def getItems (j : Json) (key : String) : List Json := ((j.get? key).bind items?).getD []

/-- The members of a member that is an object; none when it is anything else. -/
def getMembers (j : Json) (key : String) : Members := ((j.get? key).bind members?).getD []

def isNull : Json → Bool
  | .null => true
  | _ => false

def ofOptionString : Option String → Json
  | some s => .string s
  | none => .null

def present (fields : List (String × Option Json)) : Members :=
  fields.filterMap fun (key, value) => value.map fun v => (key, v)

/-- An array, unless it is empty. -/
def nonEmpty? (items : List Json) : Option Json :=
  if items.isEmpty then none else some (.array items)

/-- The value of a member that is written at most once. The outer level says whether it is. -/
def single? (members : List (String × Json)) (name : String) : Option (Option Json) :=
  match members.filter fun m => m.1 == name with
  | [] => some none
  | [m] => some (some m.2)
  | _ => none

/-- The fields of a record, absent ones as `none`. -/
def fields? (names : List String) : Json → Option (List (Option Json))
  | .object members => names.mapM (single? members)
  | .array items =>
    if items.length ≤ names.length then
      some (items.map some ++ List.replicate (names.length - items.length) none)
    else none
  | _ => none

def needed? (read : Json → Option α) (field : Option Json) : Option α := field.bind read

/-- A field that may be absent, but not null. -/
def orElse? (read : Json → Option α) (absent : α) : Option Json → Option α
  | none => some absent
  | some value => read value

/-- A field that may be absent or null. -/
def optional? (read : Json → Option α) : Option Json → Option (Option α)
  | none | some .null => some none
  | some value => (read value).map some

def list? (read : Json → Option α) (j : Json) : Option (List α) := j.items?.bind (·.mapM read)

/-- A natural number below a bound. -/
def natBelow? (bound : Nat) : Json → Option Nat
  | .number (.integer n) => if 0 ≤ n && n < bound then some n.toNat else none
  | _ => none

end Json
end ApiCollection
