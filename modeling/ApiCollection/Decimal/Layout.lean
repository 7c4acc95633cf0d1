

/-!
# Written forms of binary64 numbers

A finite binary64 number stands for all reals that round to it. Among the decimals of that
interval the ones with the fewest digits are chosen, of these the one nearest to the number
itself, and of two equally near ones the one with an even last digit.

All work is done with natural numbers: a positive number is a fraction, and the ends of its
interval are fractions with the same denominator.

The digits of a number are laid out plainly while its magnitude is moderate, and with an
exponent otherwise. A written form of a whole number keeps a decimal point.
-/

namespace ApiCollection.Decimal

/-- A positive number between the ends of the interval of reals that round to it. All three
stand over one denominator. -/
structure RoundingInterval where
  low : Nat
  value : Nat
  high : Nat
  denominator : Nat
  /-- Whether the ends round to the number too. -/
  closed : Bool
  deriving DecidableEq, Repr

/-- The interval of the positive binary64 number with that word. -/
def RoundingInterval.ofBits (bits : UInt64) : RoundingInterval :=
  let fraction : Nat := bits.toNat % Nat.pow 2 52
  let biased : Nat := bits.toNat / Nat.pow 2 52 % Nat.pow 2 11
  let mantissa := if biased == 0 then fraction else fraction + Nat.pow 2 52
  let exponent : Int := (max biased 1 : Nat) - 1077
  let below := if fraction == 0 && biased > 1 then 1 else 2
  let scale := Nat.pow 2 exponent.toNat
  { low := (4 * mantissa - below) * scale
    value := 4 * mantissa * scale
    high := (4 * mantissa + 2) * scale
    denominator := Nat.pow 2 (-exponent).toNat
    closed := mantissa % 2 == 0 }

def RoundingInterval.has (r : RoundingInterval) (n d : Nat) : Bool :=
  if r.closed then r.low * d ≤ n * r.denominator && n * r.denominator ≤ r.high * d
  else r.low * d < n * r.denominator && n * r.denominator < r.high * d

/-- A decimal: `digits` times a power of ten. -/
structure Digits where
  digits : Nat
  exponent : Int
  deriving DecidableEq, Repr

/-- The point of the grid with step `10 ^ exponent` that lies in the interval and is nearest to
the number. Only the two neighbours of the number on the grid come into question. -/
def RoundingInterval.onGrid? (r : RoundingInterval) (exponent : Int) : Option Digits :=
  let up := Nat.pow 10 exponent.toNat
  let down := Nat.pow 10 (-exponent).toNat
  let floor := r.value * down / (r.denominator * up)
  let remainder := r.value * down % (r.denominator * up)
  let hasFloor := r.has (floor * up) down
  let hasCeil := r.has ((floor + 1) * up) down
  let floorNearer :=
    if 2 * remainder == r.denominator * up then floor % 2 == 0
    else 2 * remainder < r.denominator * up
  if hasFloor && (floorNearer || !hasCeil) then some ⟨floor, exponent⟩
  else if hasCeil then some ⟨floor + 1, exponent⟩
  else none

def digitCount (n : Nat) : Nat := (Nat.toDigits 10 n).length

/-- An exponent `k` such that the number is below `10 ^ k`, and not below `10 ^ (k - 2)`. -/
def RoundingInterval.magnitude (r : RoundingInterval) : Int :=
  (digitCount r.value : Int) - digitCount r.denominator + 1

/-- Moves zeros at the end of the digits into the exponent. -/
def Digits.trimZeros : Nat → Digits → Digits
  | 0, d => d
  | fuel + 1, d =>
    if d.digits != 0 && d.digits % 10 == 0 then trimZeros fuel ⟨d.digits / 10, d.exponent + 1⟩
    else d

/-- The first hit on the grids with the steps `10 ^ exponent`, `10 ^ (exponent - 1)`, … -/
def RoundingInterval.firstHit (r : RoundingInterval) (exponent : Int) : Nat → Digits
  | 0 => ⟨0, 0⟩
  | grids + 1 => match r.onGrid? exponent with
    | some d => d
    | none => r.firstHit (exponent - 1) grids

/-- The shortest decimal of the positive binary64 number with that word. -/
def shortest (bits : UInt64) : Digits :=
  let r := RoundingInterval.ofBits bits
  (r.firstHit r.magnitude 20).trimZeros 20

/-- The decisions of a written form. -/
structure Layout where
  /-- The least power of ten that is written plainly. -/
  plainFrom : Int
  /-- The least power of ten above that which is written with an exponent again. -/
  plainBelow : Int
  /-- Whether a positive exponent has a sign. -/
  signedExponent : Bool
  deriving DecidableEq, Repr

def natText (n : Nat) : String := String.ofList (Nat.toDigits 10 n)

theorem natText_injective {m n : Nat} (h : natText m = natText n) : m = n := by
  have digits : Nat.toDigits 10 m = Nat.toDigits 10 n := String.ofList_injective h
  have values := congrArg (fun cs => Nat.ofDigitChars 10 cs 0) digits
  simpa [Nat.ofDigitChars_ten_toDigits] using values

def intText (n : Int) : String :=
  if n < 0 then "-" ++ natText n.natAbs else natText n.natAbs

def Layout.arrange (style : Layout) (d : Digits) : String :=
  let digits := Nat.toDigits 10 d.digits
  let point := (digits.length : Int) + d.exponent
  if style.plainFrom < point && point ≤ style.plainBelow then
    if 0 ≤ d.exponent then
      String.ofList (digits ++ List.replicate d.exponent.toNat '0') ++ ".0"
    else if 0 < point then
      String.ofList (digits.take point.toNat) ++ "." ++ String.ofList (digits.drop point.toNat)
    else "0." ++ String.ofList (List.replicate (-point).toNat '0' ++ digits)
  else
    let mantissa := match digits with
      | [] => ""
      | [only] => only.toString
      | first :: rest => first.toString ++ "." ++ String.ofList rest
    let exponent := point - 1
    let sign := if exponent < 0 then "-" else if style.signedExponent then "+" else ""
    mantissa ++ "e" ++ sign ++ natText exponent.natAbs

/-- The text of the finite binary64 number with that word. -/
def Layout.render (style : Layout) (bits : UInt64) : String :=
  let sign := if bits.toNat / Nat.pow 2 63 == 1 then "-" else ""
  let magnitude := bits.toNat % Nat.pow 2 63
  if magnitude == 0 then sign ++ "0.0"
  else sign ++ style.arrange (shortest (.ofNat magnitude))

end ApiCollection.Decimal
