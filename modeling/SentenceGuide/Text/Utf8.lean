/-!
# UTF-8

A character is spelled by one to four bytes.  The first byte says how many
follow it, and each byte that follows carries six bits.

Reading takes the code point off the bytes and then asks whether those bytes
are the spelling of that character.  So a spelling that is too long, a
surrogate, and a code point beyond the last one are refused by one rule, and
`decode_eq_some_iff` says it all: a list of bytes is read exactly as the
characters it is the spelling of.
-/

namespace SentenceGuide.Text.Utf8

/-! ## Writing -/

/-- A byte that follows the first one carries six bits of the code point. -/
def continuation (n : Nat) : UInt8 := (0x80 + n % 64).toUInt8

/-- The bytes that spell a character. -/
def encodeChar (c : Char) : List UInt8 :=
  let n := c.toNat
  if n < 0x80 then [n.toUInt8]
  else if n < 0x800 then [(0xC0 + n / 64).toUInt8, continuation n]
  else if n < 0x10000 then
    [(0xE0 + n / 4096).toUInt8, continuation (n / 64), continuation n]
  else
    [(0xF0 + n / 262144).toUInt8, continuation (n / 4096), continuation (n / 64),
      continuation n]

/-- The bytes that spell a text. -/
def encode (cs : List Char) : List UInt8 := cs.flatMap encodeChar

/-! ## Reading -/

/-- How many bytes follow a first byte, and the bits of the code point in it. -/
def lead (b : UInt8) : Nat × Nat :=
  let n := b.toNat
  if n < 0xC0 then (0, n)
  else if n < 0xE0 then (1, n - 0xC0)
  else if n < 0xF0 then (2, n - 0xE0)
  else (3, n - 0xF0)

/-- The code point of a first byte and the bytes that follow it. -/
def codePoint (b : UInt8) (tail : List UInt8) : Nat :=
  tail.foldl (fun n t => n * 64 + t.toNat % 64) (lead b).2

/-- Takes one character off the front of some bytes, if they start with the
spelling of one. -/
def decodeChar (b : UInt8) (bs : List UInt8) : Option (Char × List UInt8) :=
  let tail := bs.take (lead b).1
  let c := Char.ofNat (codePoint b tail)
  if encodeChar c = b :: tail then some (c, bs.drop (lead b).1) else none

theorem length_of_decodeChar {b : UInt8} {bs rest : List UInt8} {c : Char}
    (h : decodeChar b bs = some (c, rest)) : rest.length ≤ bs.length := by
  simp only [decodeChar] at h
  split at h
  · cases h; simp
  · cases h

/-- Reads the characters behind those already read, which are written backwards. -/
def decodeFrom (done : List Char) : List UInt8 → Option (List Char)
  | [] => some done.reverse
  | b :: bs =>
      match h : decodeChar b bs with
      | none => none
      | some (c, rest) =>
          have := length_of_decodeChar h
          decodeFrom (c :: done) rest
termination_by bs => bs.length

/-- The text that some bytes spell, if they spell one. -/
def decode (bs : List UInt8) : Option (List Char) := decodeFrom [] bs

/-- How many bytes stand behind the characters that some bytes start with.  The
first of those bytes spells no character with those that follow it. -/
def stray : List UInt8 → Nat
  | [] => 0
  | b :: bs =>
      match h : decodeChar b bs with
      | none => bs.length + 1
      | some (_, rest) =>
          have := length_of_decodeChar h
          stray rest
termination_by bs => bs.length

/-! ## Reading takes exactly what writing gives -/

theorem eq_append_of_decodeChar {b : UInt8} {bs rest : List UInt8} {c : Char}
    (h : decodeChar b bs = some (c, rest)) : b :: bs = encodeChar c ++ rest := by
  simp only [decodeChar] at h
  split at h
  · next he =>
      cases h
      rw [he]; simp
  · cases h

private theorem toNat_toUInt8 {n : Nat} (h : n < 256) : n.toUInt8.toNat = n := by
  simp [Nat.toUInt8, UInt8.toNat_ofNat', Nat.mod_eq_of_lt h]

private theorem toNat_continuation (n : Nat) : (continuation n).toNat = 0x80 + n % 64 :=
  toNat_toUInt8 (by omega)

/-- A spelling is read back, whatever follows it. -/
theorem decodeChar_encodeChar (c : Char) (rest : List UInt8) :
    ∃ b tail, encodeChar c = b :: tail ∧ decodeChar b (tail ++ rest) = some (c, rest) := by
  have hc : c.toNat < 0x110000 := by
    rcases c.valid with h | h
    · exact Nat.lt_trans h (by decide)
    · exact h.2
  have key : ∀ b tail, encodeChar c = b :: tail → (lead b).1 = tail.length →
      codePoint b tail = c.toNat →
      ∃ b tail, encodeChar c = b :: tail ∧ decodeChar b (tail ++ rest) = some (c, rest) := by
    intro b tail he hl hp
    refine ⟨b, tail, he, ?_⟩
    simp [decodeChar, hl, hp, Char.ofNat_toNat, he]
  by_cases h1 : c.toNat < 0x80
  · refine key c.toNat.toUInt8 [] (by simp [encodeChar, h1]) ?_ ?_ <;>
      simp [lead, codePoint, toNat_toUInt8 (show c.toNat < 256 by omega),
        show c.toNat < 0xC0 by omega]
  · by_cases h2 : c.toNat < 0x800
    · have hb := toNat_toUInt8 (show 0xC0 + c.toNat / 64 < 256 by omega)
      refine key _ _ (by simp only [encodeChar, h1, h2, if_true, if_false]; rfl) ?_ ?_
      · simp only [lead, hb]
        rw [if_neg (by omega), if_pos (by omega)]
        rfl
      · simp only [codePoint, lead, hb, List.foldl, toNat_continuation]
        rw [if_neg (by omega), if_pos (by omega)]
        simp only
        omega
    · by_cases h3 : c.toNat < 0x10000
      · have hb := toNat_toUInt8 (show 0xE0 + c.toNat / 4096 < 256 by omega)
        refine key _ _ (by simp only [encodeChar, h1, h2, h3, if_true, if_false]; rfl) ?_ ?_
        · simp only [lead, hb]
          rw [if_neg (by omega), if_neg (by omega), if_pos (by omega)]
          rfl
        · simp only [codePoint, lead, hb, List.foldl, toNat_continuation]
          rw [if_neg (by omega), if_neg (by omega), if_pos (by omega)]
          simp only
          omega
      · have hb := toNat_toUInt8 (show 0xF0 + c.toNat / 262144 < 256 by omega)
        refine key _ _ (by simp only [encodeChar, h1, h2, h3, if_false]; rfl) ?_ ?_
        · simp only [lead, hb]
          rw [if_neg (by omega), if_neg (by omega), if_neg (by omega)]
          rfl
        · simp only [codePoint, lead, hb, List.foldl, toNat_continuation]
          rw [if_neg (by omega), if_neg (by omega), if_neg (by omega)]
          simp only
          omega

theorem decodeFrom_encode (done cs : List Char) :
    decodeFrom done (encode cs) = some (done.reverse ++ cs) := by
  induction cs generalizing done with
  | nil => simp [encode, decodeFrom]
  | cons c cs ih =>
      obtain ⟨b, tail, he, hd⟩ := decodeChar_encodeChar c (encode cs)
      have : encode (c :: cs) = b :: (tail ++ encode cs) := by simp [encode, he]
      rw [this, decodeFrom]
      split
      · next h => rw [hd] at h; cases h
      · next h =>
          rw [hd] at h; cases h
          rw [ih]; simp

theorem eq_encode_of_decodeFrom {done cs : List Char} {bs : List UInt8}
    (h : decodeFrom done bs = some cs) : ∃ more, cs = done.reverse ++ more ∧ bs = encode more := by
  fun_induction decodeFrom done bs with
  | case1 done => exact ⟨[], by simpa using h.symm, rfl⟩
  | case2 => cases h
  | case3 done b bs c rest hc _ ih =>
      obtain ⟨more, rfl, rfl⟩ := ih h
      exact ⟨c :: more, by simp, by rw [eq_append_of_decodeChar hc]; rfl⟩

/-- Bytes are read as a text exactly if they are its spelling. -/
theorem decode_eq_some_iff {bs : List UInt8} {cs : List Char} :
    decode bs = some cs ↔ bs = encode cs := by
  constructor
  · intro h
    obtain ⟨more, rfl, rfl⟩ := eq_encode_of_decodeFrom h
    simp
  · rintro rfl
    simp [decode, decodeFrom_encode]

/-! ## What is left over -/

theorem stray_le (bs : List UInt8) : stray bs ≤ bs.length := by
  fun_induction stray bs with
  | case1 => exact Nat.le_refl _
  | case2 => exact Nat.le_refl _
  | case3 b bs c rest h _ ih =>
      have := length_of_decodeChar h
      simp only [List.length_cons]
      omega

/-! ## Tests -/

example : stray [0x61, 0xE6, 0x97, 0x62] = 3 ∧ stray [0xC3, 0xA9] = 0 := by decide +kernel

example : encode ['a', 'é', '日', '😀'] =
    [0x61, 0xC3, 0xA9, 0xE6, 0x97, 0xA5, 0xF0, 0x9F, 0x98, 0x80] := by decide

example : decode [0xC0, 0x80] = none ∧ decode [0xED, 0xA0, 0x80] = none ∧
    decode [0xF4, 0x90, 0x80, 0x80] = none ∧ decode [0xE6, 0x97] = none := by decide +kernel

end SentenceGuide.Text.Utf8
