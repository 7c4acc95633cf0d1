/-!
# UTF-8

Bytes are decoded one character at a time. A sequence that is cut short, or that encodes nothing,
stands for one missing character; it ends before the first byte that cannot continue it.
-/

namespace ApiCollection.Text

/-- What the first byte of a longer sequence says: how many bytes follow, the bounds of the next
one, and the bits that it contributes. -/
structure LeadByte where
  following : Nat
  least : UInt8
  most : UInt8
  bits : Nat
  deriving DecidableEq, Repr

/-- The first bytes of longer sequences. The bounds keep out long forms, surrogates and everything
beyond the last code point. -/
def leadByte? (b : UInt8) : Option LeadByte :=
  if b < 0xC2 then none
  else if b < 0xE0 then some ⟨1, 0x80, 0xBF, b.toNat - 0xC0⟩
  else if b == 0xE0 then some ⟨2, 0xA0, 0xBF, 0⟩
  else if b == 0xED then some ⟨2, 0x80, 0x9F, 13⟩
  else if b < 0xF0 then some ⟨2, 0x80, 0xBF, b.toNat - 0xE0⟩
  else if b == 0xF0 then some ⟨3, 0x90, 0xBF, 0⟩
  else if b < 0xF4 then some ⟨3, 0x80, 0xBF, b.toNat - 0xF0⟩
  else if b == 0xF4 then some ⟨3, 0x80, 0x8F, 4⟩
  else none

/-- Reads the bytes that follow a first byte: the code point, if all are there, and the rest. -/
def continuation (least most : UInt8) (bits : Nat) : Nat → List UInt8 → Option Nat × List UInt8
  | 0, bs => (some bits, bs)
  | _ + 1, [] => (none, [])
  | n + 1, b :: bs =>
    if least ≤ b && b ≤ most then continuation 0x80 0xBF (bits * 64 + b.toNat % 64) n bs
    else (none, b :: bs)

theorem length_continuation_le (least most : UInt8) (bits n : Nat) (bs : List UInt8) :
    (continuation least most bits n bs).2.length ≤ bs.length := by
  induction n generalizing least most bits bs with
  | zero => simp [continuation]
  | succ n ih =>
    cases bs with
    | nil => simp [continuation]
    | cons b bs =>
      simp only [continuation]
      split
      · exact Nat.le_trans (ih _ _ _ _) (by simp)
      · simp

/-- The characters of a sequence of bytes; a missing one stands for an invalid sequence. -/
def decodeUtf8 : List UInt8 → List (Option Char)
  | [] => []
  | b :: bs =>
    if b < 0x80 then some (Char.ofNat b.toNat) :: decodeUtf8 bs
    else match leadByte? b with
      | none => none :: decodeUtf8 bs
      | some lead =>
        let found := continuation lead.least lead.most lead.bits lead.following bs
        found.1.map Char.ofNat :: decodeUtf8 found.2
termination_by bs => bs.length
decreasing_by
  · simp
  · simp
  · have := length_continuation_le lead.least lead.most lead.bits lead.following bs
    simp only [List.length_cons]
    omega

def utf8Text? (bytes : List UInt8) : Option String :=
  ((decodeUtf8 bytes).mapM id).map String.ofList

/-- The text of a sequence of bytes, with a replacement character for each invalid sequence. -/
def utf8TextLossy (bytes : List UInt8) : String :=
  String.ofList ((decodeUtf8 bytes).map fun c => c.getD '\uFFFD')

def utf8Bytes (text : String) : List UInt8 := text.toUTF8.toList

end ApiCollection.Text
