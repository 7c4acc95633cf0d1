import ApiCollection.Text.Chars
import ApiCollection.Text.Utf8
import Mathlib.Tactic.SplitIfs

/-!
# Byte offsets

A place of a text is told by the number of bytes in front of it. Not every number tells one: it may
end inside of a character or behind the text. The bytes of ASCII characters are these characters,
and no other byte looks like one, so a reader that goes byte by byte finds the ASCII characters that
a reader of characters finds.
-/

namespace ApiCollection.Text

theorem byteLength_append (xs ys : List Char) :
    byteLength (xs ++ ys) = byteLength xs + byteLength ys := by
  induction xs with
  | nil => exact (Nat.zero_add _).symm
  | cons c xs ih => rw [List.cons_append, byteLength, byteLength, ih, Nat.add_assoc]

theorem byteLength_pos {cs : List Char} (h : cs ≠ []) : 0 < byteLength cs := by
  obtain ⟨c, cs, rfl⟩ := List.exists_cons_of_ne_nil h
  exact Nat.lt_of_lt_of_le c.utf8Size_pos (Nat.le_add_right _ _)

theorem byteLength_of_ascii {cs : List Char} (ascii : ∀ c ∈ cs, c.toNat < 128) :
    byteLength cs = cs.length := by
  induction cs with
  | nil => rfl
  | cons c cs ih =>
    rw [List.forall_mem_cons] at ascii
    have one : c.utf8Size = 1 :=
      Char.utf8Size_eq_one_iff.2 (UInt32.le_iff_toNat_le.2 (Nat.le_of_lt_succ ascii.1))
    rw [byteLength, ih ascii.2, one, List.length_cons, Nat.add_comm]

theorem cutAtByte_byteLength (xs ys : List Char) :
    cutAtByte (byteLength xs) (xs ++ ys) = (xs, ys) := by
  induction xs with
  | nil =>
    cases ys with
    | nil => rfl
    | cons c ys =>
      rw [List.nil_append, byteLength, cutAtByte, if_neg (Nat.not_le.2 c.utf8Size_pos)]
  | cons c xs ih =>
    rw [List.cons_append, byteLength, cutAtByte, if_pos (Nat.le_add_right _ _),
      Nat.add_sub_cancel_left, ih]

/-- A place parts a text in one way. -/
theorem append_inj_of_byteLength {xs ys xs' ys' : List Char} (same : xs ++ ys = xs' ++ ys')
    (place : byteLength xs = byteLength xs') : xs = xs' ∧ ys = ys' := by
  have cut := cutAtByte_byteLength xs ys
  rw [same, place, cutAtByte_byteLength] at cut
  exact Prod.mk.inj cut.symm

theorem prefix_of_byteLength_le {xs ys cs : List Char} (h : xs <+: cs) (h' : ys <+: cs)
    (shorter : byteLength xs ≤ byteLength ys) : xs <+: ys := by
  obtain start | ⟨more, rfl⟩ := List.prefix_or_prefix_of_prefix h h'
  · exact start
  · rw [byteLength_append] at shorter
    by_cases nothing : more = []
    · simp [nothing]
    · have := byteLength_pos nothing
      omega

/-- The parts of a text in front of an offset and behind it, if a character begins there or the text
ends. -/
def cutAtOffset? (n : Nat) (cs : List Char) : Option (List Char × List Char) :=
  let parts := cutAtByte n cs
  if byteLength parts.1 = n then some parts else none

theorem cutAtOffset?_eq_some_iff {n : Nat} {cs front rest : List Char} :
    cutAtOffset? n cs = some (front, rest) ↔ cs = front ++ rest ∧ byteLength front = n := by
  constructor
  · intro h
    have whole := cutAtByte_append n cs
    rw [cutAtOffset?] at h
    split at h
    · rename_i place
      rw [Option.some.inj h] at whole place
      exact ⟨whole.symm, place⟩
    · cases h
  · rintro ⟨rfl, rfl⟩
    rw [cutAtOffset?, cutAtByte_byteLength]
    exact if_pos rfl

/-- The text from one offset up to another, if both are places of the text and in order. -/
def slice? (start stop : Nat) (cs : List Char) : Option (List Char) :=
  (cutAtOffset? start cs).bind fun (_, rest) =>
    if start ≤ stop then (cutAtOffset? (stop - start) rest).map (·.1) else none

theorem slice?_eq_some_iff {start stop : Nat} {cs piece : List Char} :
    slice? start stop cs = some piece ↔ ∃ front back, cs = front ++ (piece ++ back) ∧
      byteLength front = start ∧ byteLength (front ++ piece) = stop := by
  rw [slice?, Option.bind_eq_some_iff]
  constructor
  · rintro ⟨⟨front, rest⟩, cut, h⟩
    obtain ⟨rfl, rfl⟩ := cutAtOffset?_eq_some_iff.1 cut
    dsimp only at h
    split at h
    · rename_i ordered
      obtain ⟨⟨piece', back⟩, cut', rfl⟩ := Option.map_eq_some_iff.1 h
      obtain ⟨rfl, length⟩ := cutAtOffset?_eq_some_iff.1 cut'
      refine ⟨front, back, rfl, rfl, ?_⟩
      rw [byteLength_append, length, Nat.add_sub_cancel' ordered]
    · cases h
  · rintro ⟨front, back, rfl, rfl, rfl⟩
    refine ⟨(front, piece ++ back), cutAtOffset?_eq_some_iff.2 ⟨rfl, rfl⟩, ?_⟩
    rw [byteLength_append]
    dsimp only
    rw [if_pos (Nat.le_add_right _ _), Nat.add_sub_cancel_left,
      cutAtOffset?_eq_some_iff.2 ⟨rfl, rfl⟩]
    rfl

theorem slice?_append (front piece back : List Char) :
    slice? (byteLength front) (byteLength (front ++ piece)) (front ++ (piece ++ back)) =
      some piece :=
  slice?_eq_some_iff.2 ⟨front, back, rfl, rfl, rfl⟩

private theorem toList_loop (bs : ByteArray) (i : Nat) (r : List UInt8) :
    ByteArray.toList.loop bs i r = r.reverse ++ bs.data.toList.drop i := by
  fun_induction ByteArray.toList.loop bs i r with
  | case1 i r inside ih =>
    have inside' : i < bs.data.toList.length := inside
    rw [ih, List.drop_eq_getElem_cons inside']
    simp [ByteArray.get!, inside]
  | case2 i r outside =>
    have beyond : bs.data.toList.length ≤ i := Nat.not_lt.1 outside
    rw [List.drop_eq_nil_of_le beyond, List.append_nil]

/-- The bytes of a text are those of its characters. -/
theorem utf8Bytes_ofList (cs : List Char) :
    utf8Bytes (String.ofList cs) = cs.flatMap String.utf8EncodeChar := by
  rw [utf8Bytes, String.toUTF8_eq_toByteArray, String.toByteArray_ofList, List.utf8Encode,
    ByteArray.toList, toList_loop, List.toList_data_toByteArray]
  rfl

/-- The bytes of a text, each as the character with its number. -/
def byteChars (cs : List Char) : List Char :=
  (utf8Bytes (String.ofList cs)).map fun b => Char.ofNat b.toNat

@[simp] theorem byteChars_nil : byteChars [] = [] := by
  rw [byteChars, utf8Bytes_ofList]
  rfl

theorem byteChars_append (xs ys : List Char) :
    byteChars (xs ++ ys) = byteChars xs ++ byteChars ys := by
  simp only [byteChars, utf8Bytes_ofList, List.flatMap_append, List.map_append]

theorem byteChars_singleton (c : Char) :
    byteChars [c] = (String.utf8EncodeChar c).map fun b => Char.ofNat b.toNat := by
  rw [byteChars, utf8Bytes_ofList, List.flatMap_singleton]

theorem length_byteChars (cs : List Char) : (byteChars cs).length = byteLength cs := by
  induction cs with
  | nil => rw [byteChars_nil]; rfl
  | cons c cs ih =>
    rw [← List.singleton_append, byteChars_append, List.length_append, ih, byteChars_singleton,
      List.length_map, String.length_utf8EncodeChar]
    rfl

theorem byteChars_of_ascii {c : Char} (ascii : c.toNat < 128) : byteChars [c] = [c] := by
  have short : c.val.toNat ≤ 127 := Nat.le_of_lt_succ ascii
  have byte : c.val.toNat < 256 := Nat.lt_of_le_of_lt short (by decide)
  rw [byteChars_singleton, String.utf8EncodeChar, if_pos short, List.map_singleton,
    UInt8.toNat_ofNat_of_lt' byte]
  exact congrArg (fun d => [d]) c.ofNat_toNat

theorem byteChars_of_not_ascii {c : Char} (wide : 128 ≤ c.toNat) :
    ∀ b ∈ byteChars [c], 128 ≤ b.toNat := by
  have long : ¬c.val.toNat ≤ 127 := Nat.not_le.2 wide
  rw [byteChars_singleton, List.forall_mem_map]
  have each : ∀ b ∈ String.utf8EncodeChar c, 128 ≤ b.toNat := by
    rw [String.utf8EncodeChar, if_neg long]
    split_ifs
    all_goals
      simp only [List.forall_mem_cons, List.not_mem_nil, false_implies, implies_true, and_true,
        UInt8.toNat_ofNat']
      omega
  intro b member
  have valid : b.toNat.isValidChar := .inl (Nat.lt_of_lt_of_le b.toNat_lt (by decide))
  rw [Char.ofNat, dif_pos valid]
  exact each b member

/-- The first byte of a character is an ASCII character only if it is that one, and no other byte of
it is one. -/
theorem exists_byteChars_singleton (c : Char) : ∃ b more, byteChars [c] = b :: more ∧
    (∀ d ∈ more, 128 ≤ d.toNat) ∧ ∀ k : Char, k.toNat < 128 → (b = k ↔ c = k) := by
  by_cases ascii : c.toNat < 128
  · exact ⟨c, [], byteChars_of_ascii ascii, List.forall_mem_nil _, fun _ _ => Iff.rfl⟩
  · have wide : ∀ b ∈ byteChars [c], 128 ≤ b.toNat := byteChars_of_not_ascii (Nat.not_lt.1 ascii)
    have nonempty : byteChars [c] ≠ [] := by
      rw [← List.length_pos_iff, length_byteChars]
      exact byteLength_pos (List.cons_ne_nil c [])
    obtain ⟨b, more, same⟩ := List.exists_cons_of_ne_nil nonempty
    rw [same, List.forall_mem_cons] at wide
    refine ⟨b, more, same, wide.2, fun k narrow => ⟨?_, ?_⟩⟩
    · rintro rfl
      omega
    · rintro rfl
      omega

/-- A run of ASCII characters is found in the bytes of a text as in its characters. -/
theorem takeWhile_byteChars {p : Char → Bool} (ascii : ∀ c, p c = true → c.toNat < 128)
    (cs : List Char) : (byteChars cs).takeWhile p = cs.takeWhile p := by
  induction cs with
  | nil => rw [byteChars_nil]
  | cons c cs ih =>
    rw [← List.singleton_append, byteChars_append]
    by_cases narrow : c.toNat < 128
    · rw [byteChars_of_ascii narrow, List.singleton_append, List.singleton_append,
        List.takeWhile_cons, List.takeWhile_cons, ih]
    · have other {d : Char} (wide : 128 ≤ d.toNat) : p d = false := by
        rw [← Bool.not_eq_true]
        intro h
        exact absurd (ascii d h) (Nat.not_lt.2 wide)
      obtain ⟨b, more, same, -, -⟩ := exists_byteChars_singleton c
      have wide := byteChars_of_not_ascii (Nat.not_lt.1 narrow)
      rw [same] at wide ⊢
      rw [List.cons_append, List.singleton_append,
        List.takeWhile_cons_of_neg (by rw [other (wide b List.mem_cons_self)]; decide),
        List.takeWhile_cons_of_neg (by rw [other (Nat.not_lt.1 narrow)]; decide)]

theorem byteChars_middle (front : List Char) (c : Char) (cs : List Char) :
    byteChars (front ++ c :: cs) = byteChars front ++ (byteChars [c] ++ byteChars cs) := by
  rw [← List.singleton_append, byteChars_append, byteChars_append]

/-- The byte at a place of a text is the first one of the character there. -/
theorem exists_byte (front : List Char) (c : Char) (cs : List Char) :
    ∃ h : byteLength front < (byteChars (front ++ c :: cs)).length, ∀ k : Char, k.toNat < 128 →
      ((byteChars (front ++ c :: cs))[byteLength front] = k ↔ c = k) := by
  obtain ⟨b, more, bytes, -, first⟩ := exists_byteChars_singleton c
  have split := byteChars_middle front c cs
  rw [bytes, List.cons_append] at split
  have inside : byteLength front < (byteChars (front ++ c :: cs)).length := by
    rw [split, List.length_append, length_byteChars, List.length_cons]
    omega
  have here : (byteChars (front ++ c :: cs))[byteLength front] = b := by
    simp only [split, ← length_byteChars front, List.getElem_append_right, Nat.le_refl,
      Nat.sub_self, List.getElem_cons_zero]
  refine ⟨inside, ?_⟩
  rwa [here]

/-- The byte at a place is a given ASCII character if and only if that one stands there. -/
theorem getElem?_byteChars {k : Char} (ascii : k.toNat < 128) (front cs : List Char) :
    (byteChars (front ++ cs))[byteLength front]? = some k ↔ cs.head? = some k := by
  cases cs with
  | nil =>
    have outside : (byteChars front)[byteLength front]? = none :=
      List.getElem?_eq_none (Nat.le_of_eq (length_byteChars front))
    rw [List.append_nil, outside]
    exact iff_of_false nofun nofun
  | cons c cs =>
    obtain ⟨inside, first⟩ := exists_byte front c cs
    rw [List.getElem?_eq_getElem inside, List.head?_cons, Option.some.injEq, Option.some.injEq]
    exact first k ascii

/-- A reader that does not mind bytes beyond ASCII passes all bytes of a character but the first. -/
theorem pass_char {α : Type} {read : Nat → α} (front : List Char) (c : Char) (cs : List Char)
    (pass : ∀ i (h : i < (byteChars (front ++ c :: cs)).length),
      128 ≤ (byteChars (front ++ c :: cs))[i].toNat → read i = read (i + 1)) :
    read (byteLength front + 1) = read (byteLength (front ++ [c])) := by
  obtain ⟨b, more, bytes, wide, -⟩ := exists_byteChars_singleton c
  have split : byteChars (front ++ c :: cs) = byteChars front ++ [b] ++ (more ++ byteChars cs) := by
    rw [byteChars_middle, bytes]
    simp
  have start : (byteChars front ++ [b]).length = byteLength front + 1 := by
    rw [List.length_append, length_byteChars, List.length_singleton]
  have each (n : Nat) (within : n ≤ more.length) :
      read (byteLength front + 1) = read (byteLength front + 1 + n) := by
    induction n with
    | zero => rfl
    | succ n ih =>
      have inside : byteLength front + 1 + n < (byteChars (front ++ c :: cs)).length := by
        rw [split, List.length_append, start, List.length_append]
        omega
      have here : (byteChars (front ++ c :: cs))[byteLength front + 1 + n] = more[n] := by
        simp only [split, ← start]
        rw [List.getElem_append_right (Nat.le_add_right _ _)]
        simp only [Nat.add_sub_cancel_left]
        exact List.getElem_append_left within
      rw [ih (Nat.le_of_succ_le within), pass _ inside (here ▸ wide _ (List.getElem_mem within))]
      rfl
  rw [each more.length (Nat.le_refl _), byteLength_append, ← length_byteChars [c], bytes,
    List.length_cons, Nat.add_assoc, Nat.add_comm 1]

end ApiCollection.Text
