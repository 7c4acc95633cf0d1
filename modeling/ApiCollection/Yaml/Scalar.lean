import ApiCollection.Json.Value
import ApiCollection.Text.Chars

/-!
# Plain scalars

A plain scalar stands for null, a truth value, a number or a text, and its spelling alone decides
which. Digits behind a leading zero are a text.
-/

namespace ApiCollection.Yaml

inductive Scalar where
  | null
  | bool (b : Bool)
  | integer (n : Int)
  /-- A finite binary64 number with that word. -/
  | real (bits : UInt64)
  /-- An infinity, or no number. -/
  | unbounded
  | text
  deriving DecidableEq, Repr

namespace Scalar

def digit? (base : Nat) (c : Char) : Option Nat :=
  (Text.hexDigit? c).filter (· < base)

def digits? (base : Nat) (cs : List Char) : Option Nat :=
  if cs.isEmpty then none
  else cs.foldl (fun n c => n.bind fun n => (digit? base c).map (n * base + ·)) (some 0)

/-- The bases with a marker, and base ten without one. -/
def bases : List (List Char × Nat) := [(['0', 'x'], 16), (['0', 'o'], 8), (['0', 'b'], 2), ([], 10)]

/-- Whether there are several digits of which the first is a zero, perhaps behind a sign. -/
def isZeroLed (cs : List Char) : Bool :=
  let digits := match cs with
    | '-' :: rest | '+' :: rest => rest
    | _ => cs
  digits.length > 1 && digits.head? == some '0' && digits.all Char.isDigit

/-- The value of a magnitude in one of the bases, below a bound. -/
def magnitude? (bound : Nat) (cs : List Char) : Option Nat :=
  bases.findSome? fun (marker, base) =>
    ((Text.after? marker cs).bind (digits? base)).filter (· < bound)

/-- The integer that a scalar spells. Only integers of 128 bits count. -/
def integer? (cs : List Char) : Option Int :=
  if isZeroLed cs then none
  else match cs with
    | '-' :: rest => (magnitude? (Nat.pow 2 127 + 1) rest).map fun n => -n
    | '+' :: rest => (magnitude? (Nat.pow 2 128) rest).map Int.ofNat
    | _ => (magnitude? (Nat.pow 2 128) cs).map Int.ofNat

/-- The exponent behind a mantissa: none, or a mark with a sign and digits. -/
def exponent? (cs : List Char) : Option Int :=
  match cs with
  | [] => some 0
  | mark :: rest =>
    if mark == 'e' || mark == 'E' then
      match rest with
      | '-' :: ds => (digits? 10 ds).map fun n => -n
      | '+' :: ds => (digits? 10 ds).map Int.ofNat
      | ds => (digits? 10 ds).map Int.ofNat
    else none

/-- The word of a decimal number, correctly rounded; infinite ones have none. -/
def decimalBits? (significand : Nat) (exponent : Int) : Option UInt64 :=
  let magnitude := ((Nat.toDigits 10 significand).length : Int) + exponent
  if significand == 0 || magnitude < -400 then some 0
  else if 400 < magnitude then none
  else
    let f := Float.ofScientific significand (exponent < 0) exponent.natAbs
    if f.isFinite then some f.toBits else none

/-- The word of a decimal number without a sign: digits on at least one side of an optional point,
and perhaps an exponent. -/
def unsignedBits? (cs : List Char) : Option UInt64 :=
  let whole := cs.takeWhile Char.isDigit
  let rest := cs.dropWhile Char.isDigit
  let behind := match rest with
    | '.' :: behind => some behind
    | _ => none
  let fraction := (behind.getD []).takeWhile Char.isDigit
  let rest := (behind.map (·.dropWhile Char.isDigit)).getD rest
  match digits? 10 (whole ++ fraction), exponent? rest with
  | some significand, some exponent => decimalBits? significand (exponent - fraction.length)
  | _, _ => none

def negateBits (bits : UInt64) : UInt64 := bits + 0x8000000000000000

/-- The word of a decimal number, perhaps with a sign. -/
def realBits? (cs : List Char) : Option UInt64 :=
  match cs with
  | '-' :: rest => (unsignedBits? rest).map negateBits
  | '+' :: rest => unsignedBits? rest
  | _ => unsignedBits? cs

def unboundedSpellings : List String :=
  [".inf", ".Inf", ".INF", "+.inf", "+.Inf", "+.INF", "-.inf", "-.Inf", "-.INF",
    ".nan", ".NaN", ".NAN"]

/-- The number that a scalar spells if it spells no integer. -/
def real? (cs : List Char) : Option Scalar :=
  if unboundedSpellings.contains (String.ofList cs) then some .unbounded
  else (realBits? cs).map .real

def nullSpellings : List String := ["", "~", "null", "Null", "NULL"]

def isNull (s : String) : Bool := nullSpellings.contains s

def bool? (s : String) : Option Bool :=
  if ["true", "True", "TRUE"].contains s then some true
  else if ["false", "False", "FALSE"].contains s then some false
  else none

def resolve (s : String) : Scalar :=
  if isNull s then .null
  else match bool? s with
    | some b => .bool b
    | none => match integer? s.toList with
      | some n => .integer n
      | none => if isZeroLed s.toList then .text else (real? s.toList).getD .text

/-- Integers outside 64 bits have no value. What is not finite becomes null. -/
def toJson? (written : String) : Scalar → Option Json
  | .null | .unbounded => some .null
  | .bool b => some (.bool b)
  | .integer n =>
    if -9223372036854775808 ≤ n && n < 18446744073709551616 then some (.int n) else none
  | .real bits => some (.number (.real bits))
  | .text => some (.string written)

/-- Whether a text has to be quoted so that it is not read as something else. -/
def misreads (s : String) : Bool := resolve s != .text || isZeroLed s.toList

end Scalar
end ApiCollection.Yaml
