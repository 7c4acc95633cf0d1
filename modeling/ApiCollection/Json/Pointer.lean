import ApiCollection.Json.Value
import ApiCollection.Text.Chars

/-!
# Pointers into JSON values

A pointer is empty, or a list of steps with a slash in front of each. A step names a member of an
object or numbers an item of an array.
-/

namespace ApiCollection.Json

def unescapeTilde (digit char : Char) : List Char → List Char
  | '~' :: c :: rest =>
    if c == digit then char :: unescapeTilde digit char rest
    else '~' :: unescapeTilde digit char (c :: rest)
  | c :: rest => c :: unescapeTilde digit char rest
  | [] => []

/-- The name that a step is written for: `~1` is a slash, and then `~0` is a tilde. -/
def stepName (step : List Char) : String :=
  String.ofList (unescapeTilde '0' '~' (unescapeTilde '1' '/' step))

def pointerSteps? (pointer : String) : Option (List String) :=
  match pointer.toList with
  | [] => some []
  | '/' :: rest => some ((Text.splitAtChar '/' rest).map stepName)
  | _ => none

def decimal? (cs : List Char) : Option Nat :=
  if cs.isEmpty || !cs.all Char.isDigit then none
  else some (cs.foldl (fun n c => n * 10 + (c.toNat - '0'.toNat)) 0)

/-- The number of an item. It has no leading zero. -/
def itemIndex? (step : String) : Option Nat :=
  match step.toList with
  | '0' :: _ :: _ => none
  | cs => decimal? cs

def step? (j : Json) (step : String) : Option Json :=
  match j with
  | .object members => Table.get? members step
  | .array items => (itemIndex? step).bind fun i => items[i]?
  | _ => none

def follow? (j : Json) (steps : List String) : Option Json := steps.foldlM step? j

def at? (j : Json) (pointer : String) : Option Json := (pointerSteps? pointer).bind j.follow?

@[simp] theorem follow?_nil (j : Json) : j.follow? [] = some j := rfl

@[simp] theorem follow?_cons (j : Json) (step : String) (steps : List String) :
    j.follow? (step :: steps) = (j.step? step).bind (·.follow? steps) := rfl

end ApiCollection.Json
