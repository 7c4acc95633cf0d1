import ApiCollection.Decimal.Layout
import ApiCollection.Yaml.Quoting

/-!
# Printing YAML

Objects and arrays are written in blocks, each level two columns further in; the items of an array
under a key stand in the column of the key. Empty containers are closed up. Every text ends with a
line feed.
-/

namespace ApiCollection.Yaml

/-- Numbers are written plainly from 1e-5 up to below 1e16, and a positive exponent has no
sign. -/
def realLayout : Decimal.Layout := ⟨-5, 16, false⟩

def numberText : Json.Number → String
  | .integer n => Decimal.intText n
  | .real bits => realLayout.render bits

def scalarText (indent : Nat) : Json → List Char
  | .null => "null".toList
  | .bool b => (if b then "true" else "false").toList
  | .number n => (numberText n).toList
  | .string s => render indent s
  | .array _ => ['[', ']']
  | .object _ => ['\x7b', '\x7d']

/-- The text of a key with its colon, on one line or as a block of its own. -/
def keyText (indent : Nat) (key : String) : List Char :=
  if isSimpleKey key then render (indent + 2) key ++ [':']
  else ['?', ' '] ++ closeLine (render (indent + 2) key) ++ margin indent ++ [':']

mutual

/-- A value behind a mark on the same line; further lines begin in column `indent`. -/
def inline (indent : Nat) : Json → List Char
  | .array (item :: rest) =>
    ['-', ' '] ++ inline (indent + 2) item ++ itemLines indent rest
  | .object ((key, value) :: rest) =>
    keyText indent key ++ underKey indent (isSimpleKey key) value ++ memberLines indent rest
  | scalar => closeLine (scalarText indent scalar)

def itemLines (indent : Nat) : List Json → List Char
  | [] => []
  | item :: rest =>
    margin indent ++ ['-', ' '] ++ inline (indent + 2) item ++ itemLines indent rest

def memberLines (indent : Nat) : List (String × Json) → List Char
  | [] => []
  | (key, value) :: rest =>
    margin indent ++ keyText indent key ++ underKey indent (isSimpleKey key) value ++
      memberLines indent rest

/-- A value behind the colon of a key in column `indent`. Behind a key on one line, a container
begins on the next line. -/
def underKey (indent : Nat) (simple : Bool) : Json → List Char
  | .array (item :: rest) =>
    if simple then '\n' :: margin indent ++ ['-', ' '] ++ inline (indent + 2) item ++
      itemLines indent rest
    else ' ' :: '-' :: ' ' :: inline (indent + 4) item ++ itemLines (indent + 2) rest
  | .object ((key, value) :: rest) =>
    (if simple then '\n' :: margin (indent + 2) else [' ']) ++ keyText (indent + 2) key ++
      underKey (indent + 2) (isSimpleKey key) value ++ memberLines (indent + 2) rest
  | scalar => ' ' :: closeLine (scalarText (indent + 2) scalar)

end

def print (j : Json) : String :=
  match j with
  | .string s => String.ofList (closeLine (render 2 s))
  | j => String.ofList (inline 0 j)

end ApiCollection.Yaml
