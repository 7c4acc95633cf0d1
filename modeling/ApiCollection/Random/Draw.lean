

/-!
# Streams of random words

A stream of 32-bit words is the key stream of ChaCha with twelve rounds, read block by block
from block zero on. The key is made from a 64-bit seed.

A draw takes words from a stream. Numbers of a range are drawn with one word and, where that
would favour some of them, a second one.
-/

namespace ApiCollection.Random

abbrev Block := Vector UInt32 16

def rotateLeft (w : UInt32) (n : UInt32) : UInt32 := (w <<< n) ||| (w >>> (32 - n))

def rotateRight (w : UInt32) (n : UInt32) : UInt32 :=
  if n == 0 then w else (w >>> n) ||| (w <<< (32 - n))

def quarterRound (b : Block) (i j k l : Fin 16) : Block :=
  let a₀ := b[i] + b[j]
  let d₀ := rotateLeft (b[l] ^^^ a₀) 16
  let c₀ := b[k] + d₀
  let b₀ := rotateLeft (b[j] ^^^ c₀) 12
  let a₁ := a₀ + b₀
  let d₁ := rotateLeft (d₀ ^^^ a₁) 8
  let c₁ := c₀ + d₁
  let b₁ := rotateLeft (b₀ ^^^ c₁) 7
  (((b.set i a₁).set j b₁).set k c₁).set l d₁

/-- A round on the columns and a round on the diagonals. -/
def doubleRound (b : Block) : Block :=
  let b := quarterRound b 0 4 8 12
  let b := quarterRound b 1 5 9 13
  let b := quarterRound b 2 6 10 14
  let b := quarterRound b 3 7 11 15
  let b := quarterRound b 0 5 10 15
  let b := quarterRound b 1 6 11 12
  let b := quarterRound b 2 7 8 13
  quarterRound b 3 4 9 14

abbrev Key := Vector UInt32 8

/-- The block with that number before the rounds: constants, key, number and a zero nonce. -/
def initialBlock (key : Key) (number : UInt64) : Block :=
  #v[0x61707865, 0x3320646e, 0x79622d32, 0x6b206574,
    key[0], key[1], key[2], key[3], key[4], key[5], key[6], key[7],
    number.toUInt32, (number >>> 32).toUInt32, 0, 0]

/-- The words of a block: the initial block plus its image under twelve rounds. -/
def blockWords (key : Key) (number : UInt64) : List UInt32 :=
  let start := initialBlock key number
  let mixed := Nat.repeat doubleRound 6 start
  (Vector.zipWith (· + ·) mixed start).toList

/-- A place in the word stream of a key. -/
structure Stream where
  key : Key
  nextBlock : UInt64
  /-- What is left of the current block. -/
  pending : List UInt32

def Stream.next (s : Stream) : UInt32 × Stream :=
  match s.pending with
  | w :: rest => (w, { s with pending := rest })
  | [] => match blockWords s.key s.nextBlock with
    | w :: rest => (w, { s with nextBlock := s.nextBlock + 1, pending := rest })
    | [] => (0, s)

/-- The states that a seed runs through while a key is made. -/
def seedStep (state : UInt64) : UInt64 := state * 6364136223846793005 + 11634580027462260723

def seedWord (state : UInt64) : UInt32 :=
  rotateRight (((state >>> 18) ^^^ state) >>> 27).toUInt32 (state >>> 59).toUInt32

def seedKey (seed : UInt64) : Key :=
  Vector.ofFn fun i => seedWord (Nat.repeat seedStep (i.val + 1) seed)

def Stream.ofSeed (seed : UInt64) : Stream := ⟨seedKey seed, 0, []⟩

/-- A computation that takes words from a stream. -/
abbrev Draw := StateM Stream

def word : Draw UInt32 := fun s => s.next

/-- Two words as one number, the low one first. -/
def doubleWord : Draw Nat := do
  let low ← word
  let high ← word
  return low.toNat + Nat.pow 2 32 * high.toNat

/-- A number below `count`, from numbers below `2 ^ bits`. A draw is scaled to the range; when it
lands so near to the next number that the choice is not even, a second draw decides. -/
def scaled (bits : Nat) (draw : Draw Nat) (count : Nat) : Draw Nat := do
  let first := (← draw) * count
  let number := first / Nat.pow 2 bits
  let low := first % Nat.pow 2 bits
  if Nat.pow 2 bits - count < low then
    let second := (← draw) * count / Nat.pow 2 bits
    return if Nat.pow 2 bits ≤ low + second then number + 1 else number
  else return number

def between (low high : Nat) : Draw Nat := do
  return low + (← scaled 32 (UInt32.toNat <$> word) (high - low + 1))

/-- A number from `low` up to `high`, from two words. -/
def betweenLong (low high : Nat) : Draw Nat := do
  return low + (← scaled 64 doubleWord (high - low + 1))

def coin : Draw Bool := do
  return (← doubleWord) < Nat.pow 2 63

def pick (pool : List String) : Draw String := do
  return pool.getD (← between 0 (pool.length - 1)) ""

/-- A letter or digit: six bits of a word, drawn again while they are out of range. -/
def alphanumericWithin : Nat → Draw Char
  | 0 => return 'A'
  | tries + 1 => do
    let n := (← word).toNat / Nat.pow 2 26
    if n < 26 then return Char.ofNat ('A'.toNat + n)
    else if n < 52 then return Char.ofNat ('a'.toNat + (n - 26))
    else if n < 62 then return Char.ofNat ('0'.toNat + (n - 52))
    else alphanumericWithin tries

/-- A letter or digit. A long series of refused draws is cut off. -/
def alphanumeric : Draw Char := alphanumericWithin 1000

def times (n : Nat) (draw : Draw α) : Draw (List α) := (List.range n).mapM fun _ => draw

def alphanumericText (length : Nat) : Draw String := String.ofList <$> times length alphanumeric

/-- The bytes of a word, the low one first. -/
def wordBytes (w : UInt32) : List Nat :=
  [w.toNat % 256, w.toNat / 256 % 256, w.toNat / 65536 % 256, w.toNat / 16777216]

def hexByte (n : Nat) : List Char := [Nat.digitChar (n / 16), Nat.digitChar (n % 16)]

/-- Sixteen bytes as an identifier of version four: the version and the variant are set, and the
groups are parted by hyphens. -/
def uuidText (bytes : List Nat) : String :=
  let marked := bytes.mapIdx fun i b =>
    if i == 6 then 0x40 + b % 16 else if i == 8 then 0x80 + b % 64 else b
  String.ofList (marked.mapIdx fun i b =>
    if i == 4 || i == 6 || i == 8 || i == 10 then '-' :: hexByte b else hexByte b).flatten

def uuid : Draw String := do
  let words ← times 4 word
  return uuidText (words.flatMap wordBytes)

end ApiCollection.Random
