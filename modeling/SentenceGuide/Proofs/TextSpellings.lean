import SentenceGuide.Json.Text
import SentenceGuide.Json.Writer

/-!
# Spellings of a text in a document

A text in a document can be spelled in many ways.  A character stands for itself, or
a backslash and a letter write it, or its code unit does, or the two units of a
character beyond U+FFFF do.  Every spelling of a text is read as that text, whatever
stands behind its closing quote (`outcome_readText`).

Writing picks one spelling for each character (`charSpelled_writeChar`).
-/

namespace SentenceGuide.Json

open Text.Utf8 (encodeChar encode)

/-! ## Spellings -/

/-- Four hexadecimal digits and their value. -/
inductive Digits : List UInt8 → Nat → Prop where
  | four {a b c d : UInt8} {n : Nat} : hexValue a b c d = some n → Digits [a, b, c, d] n

/-- The ways to write a character in a text. -/
inductive CharSpelled : Char → List UInt8 → Prop where
  /-- It stands for itself. -/
  | raw {c : Char} : c ≠ '"' → c ≠ '\\' → 0x20 ≤ c.toNat → CharSpelled c (encodeChar c)
  /-- A letter behind a backslash writes it. -/
  | letter {c : Char} {b d : UInt8} : escapeLetter b = some d → encodeChar c = [d] →
      CharSpelled c [byte '\\', b]
  /-- A code unit writes it. -/
  | unit {digits : List UInt8} {n : Nat} : Digits digits n → isLeading n = false →
      isTrailing n = false → CharSpelled (Char.ofNat n) (byte '\\' :: byte 'u' :: digits)
  /-- Two code units write it. -/
  | pair {leading trailing : List UInt8} {m n : Nat} : Digits leading m → Digits trailing n →
      isLeading m = true → isTrailing n = true →
      CharSpelled (pairedChar m n)
        (byte '\\' :: byte 'u' :: (leading ++ byte '\\' :: byte 'u' :: trailing))

/-- The ways to write a text between its quotes. -/
inductive TextSpelled : List Char → List UInt8 → Prop where
  | nil : TextSpelled [] []
  | cons {c : Char} {cs : List Char} {spelling bytes : List UInt8} : CharSpelled c spelling →
      TextSpelled cs bytes → TextSpelled (c :: cs) (spelling ++ bytes)

/-! ## What readers make of bytes -/

variable {α : Type} {read : Reader α} {bytes rest spelling digits done : List UInt8} {value : α}
  {c : Char} {cs : List Char} {n bound : Nat}

theorem outcome_eq_ok_iff :
    outcome read bytes = .ok (value, rest) ↔ ∃ h, read bytes = .ok ⟨value, rest, h⟩ := by
  rw [outcome]
  cases read bytes with
  | error fault => exact ⟨nofun, nofun⟩
  | ok r =>
      obtain ⟨value', rest', hshorter⟩ := r
      constructor
      · intro h
        cases h
        exact ⟨hshorter, rfl⟩
      · rintro ⟨h, heq⟩
        cases heq
        rfl

/-! ## Escapes -/

theorem outcome_readHex (h : Digits digits n) (rest : List UInt8) :
    outcome readHex (digits ++ rest) = .ok (n, rest) := by
  obtain ⟨hvalue⟩ := h
  simp only [List.cons_append, List.nil_append, outcome, readHex, hvalue]
  rfl

theorem outcome_readEscape_letter {b d : UInt8} (h : escapeLetter b = some d)
    (rest : List UInt8) : outcome readEscape (b :: rest) = .ok ([d], rest) := by
  simp only [outcome, readEscape, h]
  rfl

theorem outcome_readEscape_unit (h : Digits digits n) (hleading : isLeading n = false)
    (htrailing : isTrailing n = false) (rest : List UInt8) :
    outcome readEscape (byte 'u' :: (digits ++ rest)) = .ok (encodeChar (Char.ofNat n), rest) := by
  obtain ⟨hshorter, hread⟩ := outcome_eq_ok_iff.mp (outcome_readHex h rest)
  have hletter : escapeLetter (byte 'u') = none := by decide
  simp only [outcome, readEscape, hletter, readUnits, hread, hleading, htrailing]
  rfl

theorem outcome_readEscape_pair {leading trailing : List UInt8} {m : Nat}
    (hm : Digits leading m) (hn : Digits trailing n) (hleading : isLeading m = true)
    (htrailing : isTrailing n = true) (rest : List UInt8) :
    outcome readEscape
        (byte 'u' :: (leading ++ byte '\\' :: byte 'u' :: (trailing ++ rest))) =
      .ok (encodeChar (pairedChar m n), rest) := by
  obtain ⟨_, hfirst⟩ :=
    outcome_eq_ok_iff.mp (outcome_readHex hm (byte '\\' :: byte 'u' :: (trailing ++ rest)))
  obtain ⟨_, hsecond⟩ := outcome_eq_ok_iff.mp (outcome_readHex hn rest)
  have hletter : escapeLetter (byte 'u') = none := by decide
  have hfirst_not_trailing : isTrailing m = false := by
    simp only [isLeading, isTrailing, Bool.and_eq_true, decide_eq_true_eq,
      Bool.and_eq_false_iff, decide_eq_false_iff_not] at hleading ⊢
    omega
  simp only [outcome, readEscape, hletter, readUnits, hfirst, hleading, hfirst_not_trailing,
    Bool.false_eq_true, Bool.not_true, ne_eq, not_true_eq_false, if_true, if_false, hsecond,
    htrailing, Except.map, Reading.map, Reading.widen]

/-! ## Gathering -/

/-- A byte that stands for itself in a text. -/
def Plain (b : UInt8) : Prop := b ≠ byte '"' ∧ b ≠ byte '\\' ∧ ¬ b < 32

theorem gatherText_quote (within : (byte '"' :: rest).length ≤ bound) :
    gatherText bound done (byte '"' :: rest) within = .ok ⟨done.reverse, rest, within⟩ := by
  rw [gatherText, if_pos rfl]

theorem gatherText_plain {b : UInt8} (h : Plain b) (within : (b :: rest).length ≤ bound) :
    gatherText bound done (b :: rest) within =
      gatherText bound (b :: done) rest (Nat.le_of_succ_le within) := by
  obtain ⟨hquote, hbackslash, hcontrol⟩ := h
  rw [gatherText, if_neg hquote, if_neg hbackslash, if_neg hcontrol]

theorem gatherText_escape (h : outcome readEscape bytes = .ok (spelling, rest))
    (within : (byte '\\' :: bytes).length ≤ bound) (within' : rest.length ≤ bound) :
    gatherText bound done (byte '\\' :: bytes) within =
      gatherText bound (spelling.reverse ++ done) rest within' := by
  obtain ⟨_, hread⟩ := outcome_eq_ok_iff.mp h
  rw [gatherText, if_neg (by decide), if_pos rfl]
  simp only [hread]

theorem gatherText_append (h : ∀ b ∈ spelling, Plain b)
    (within : (spelling ++ rest).length ≤ bound) (within' : rest.length ≤ bound) :
    gatherText bound done (spelling ++ rest) within =
      gatherText bound (spelling.reverse ++ done) rest within' := by
  induction spelling generalizing done with
  | nil => rfl
  | cons b spelling ih =>
      obtain ⟨hb, hspelling⟩ := List.forall_mem_cons.mp h
      simp only [List.cons_append] at within ⊢
      rw [gatherText_plain hb, ih hspelling]
      simp

/-- A byte of a character is the number of the character or is beyond ASCII. -/
theorem mem_encodeChar {b : UInt8} (h : b ∈ encodeChar c) :
    b.toNat = c.toNat ∨ 0x80 ≤ b.toNat := by
  have hc : c.toNat < 0x110000 := by
    rcases c.valid with h | h
    · exact Nat.lt_trans h (by decide)
    · exact h.2
  have hbyte : ∀ m, m < 0x100 → m.toUInt8.toNat = m := fun _ h => UInt8.toNat_ofNat_of_lt' h
  have hbeyond : ∀ m, 0x80 ≤ m → m < 0x100 → 0x80 ≤ m.toUInt8.toNat := by
    intro m hle hlt
    rwa [hbyte m hlt]
  have hcontinuation : ∀ m, 0x80 ≤ (Text.Utf8.continuation m).toNat :=
    fun m => hbeyond _ (by omega) (by omega)
  rw [encodeChar] at h
  split at h
  · rw [List.mem_singleton.mp h, hbyte _ (by omega)]
    exact .inl rfl
  · right
    split at h
    · simp only [List.mem_cons, List.not_mem_nil, or_false] at h
      rcases h with rfl | rfl
      · exact hbeyond _ (by omega) (by omega)
      · exact hcontinuation _
    · split at h
      · simp only [List.mem_cons, List.not_mem_nil, or_false] at h
        rcases h with rfl | rfl | rfl
        · exact hbeyond _ (by omega) (by omega)
        · exact hcontinuation _
        · exact hcontinuation _
      · simp only [List.mem_cons, List.not_mem_nil, or_false] at h
        rcases h with rfl | rfl | rfl | rfl
        · exact hbeyond _ (by omega) (by omega)
        · exact hcontinuation _
        · exact hcontinuation _
        · exact hcontinuation _

/-- The byte of an ASCII character is in no other character. -/
theorem ne_byte_of_mem_encodeChar {a : Char} {b : UInt8} (ha : a.toNat < 0x80) (hc : c ≠ a)
    (h : b ∈ encodeChar c) : b ≠ byte a := by
  rintro rfl
  have hbyte : (byte a).toNat = a.toNat :=
    UInt8.toNat_ofNat_of_lt' (Nat.lt_trans ha (by decide))
  rcases mem_encodeChar h with hb | hb
  · exact hc (Char.toNat_inj.mp (hb.symm.trans hbyte))
  · omega

theorem plain_of_mem_encodeChar {b : UInt8} (hquote : c ≠ '"') (hbackslash : c ≠ '\\')
    (hcontrol : 0x20 ≤ c.toNat) (h : b ∈ encodeChar c) : Plain b := by
  refine ⟨ne_byte_of_mem_encodeChar (by decide) hquote h,
    ne_byte_of_mem_encodeChar (by decide) hbackslash h, ?_⟩
  intro hlt
  have hlt : b.toNat < 32 := hlt
  rcases mem_encodeChar h with hb | hb <;> omega

/-- A character that is spelled in some way is gathered. -/
theorem gatherText_char (h : CharSpelled c spelling)
    (within : (spelling ++ rest).length ≤ bound) (within' : rest.length ≤ bound) :
    gatherText bound done (spelling ++ rest) within =
      gatherText bound ((encodeChar c).reverse ++ done) rest within' := by
  cases h with
  | raw hquote hbackslash hcontrol =>
      have hplain : ∀ b ∈ encodeChar c, Plain b := fun b hb =>
        plain_of_mem_encodeChar hquote hbackslash hcontrol hb
      exact gatherText_append hplain _ _
  | letter hletter hc =>
      rw [hc]
      exact gatherText_escape (outcome_readEscape_letter hletter rest) _ _
  | unit hdigits hleading htrailing =>
      exact gatherText_escape (outcome_readEscape_unit hdigits hleading htrailing rest) _ _
  | pair hm hn hleading htrailing =>
      have hread := outcome_readEscape_pair hm hn hleading htrailing rest
      simp only [List.cons_append, List.append_assoc] at within ⊢
      exact gatherText_escape hread _ _

theorem gatherText_text (h : TextSpelled cs spelling)
    (within : (spelling ++ byte '"' :: rest).length ≤ bound) (within' : rest.length < bound) :
    gatherText bound done (spelling ++ byte '"' :: rest) within =
      .ok ⟨done.reverse ++ encode cs, rest, within'⟩ := by
  induction h generalizing done with
  | nil => exact (gatherText_quote within).trans (by simp [encode])
  | @cons c cs spelling bytes hc _ ih =>
      have hbound : (bytes ++ byte '"' :: rest).length ≤ bound := by
        simp only [List.length_append] at within ⊢
        omega
      simp only [List.append_assoc] at within ⊢
      rw [gatherText_char hc within hbound, ih hbound]
      simp [encode]

/-- A spelling of a text is read as that text. -/
theorem outcome_readText (h : TextSpelled cs spelling) (rest : List UInt8) :
    outcome readText (spelling ++ byte '"' :: rest) = .ok (String.ofList cs, rest) := by
  have hlt : rest.length < (spelling ++ byte '"' :: rest).length := by
    simp only [List.length_append, List.length_cons]
    omega
  simp only [outcome, readText, gatherText_text h _ hlt, List.reverse_nil, List.nil_append,
    Text.Utf8.decode_eq_some_iff.mpr (Eq.refl (encode cs))]
  rfl

/-! ## The spelling that is written -/

theorem encode_append (cs ds : List Char) : encode (cs ++ ds) = encode cs ++ encode ds :=
  List.flatMap_append

/-- The number of a control character is two zeros and two digits. -/
theorem hexValue_lowerHex : ∀ n < 0x20,
    encode ['\\', 'u', '0', '0', lowerHex (n / 16), lowerHex (n % 16)] =
        [byte '\\', byte 'u', byte '0', byte '0', byte (lowerHex (n / 16)),
          byte (lowerHex (n % 16))] ∧
      hexValue (byte '0') (byte '0') (byte (lowerHex (n / 16))) (byte (lowerHex (n % 16))) =
        some n ∧ isLeading n = false ∧ isTrailing n = false := by
  decide +kernel

theorem charSpelled_letter {b d : UInt8} {l : Char} (hl : encodeChar l = [b])
    (hletter : escapeLetter b = some d) (hc : encodeChar c = [d]) :
    CharSpelled c (encode ['\\', l]) := by
  have hwritten : encode ['\\', l] = [byte '\\', b] := by
    rw [encode, List.flatMap_cons, List.flatMap_singleton, hl]
    rfl
  rw [hwritten]
  exact .letter hletter hc

/-- A character is written by one of its spellings. -/
theorem charSpelled_writeChar (c : Char) : CharSpelled c (encode (writeChar c)) := by
  rw [writeChar]
  split
  · next h =>
      rcases h with rfl | rfl <;> exact charSpelled_letter rfl rfl rfl
  split
  · next h => exact h ▸ charSpelled_letter rfl rfl rfl
  split
  · next h => exact h ▸ charSpelled_letter rfl rfl rfl
  split
  · next h => exact h ▸ charSpelled_letter rfl rfl rfl
  split
  · next h => exact h ▸ charSpelled_letter rfl rfl rfl
  split
  · next h => exact h ▸ charSpelled_letter rfl rfl rfl
  split
  · next hcontrol =>
      obtain ⟨hwritten, hvalue, hleading, htrailing⟩ := hexValue_lowerHex c.toNat hcontrol
      rw [hwritten]
      have hunit := CharSpelled.unit (.four hvalue) hleading htrailing
      rwa [Char.ofNat_toNat] at hunit
  · next hspecial _ _ _ _ _ hcontrol =>
      obtain ⟨hquote, hbackslash⟩ := not_or.mp hspecial
      have hraw := CharSpelled.raw hquote hbackslash (Nat.le_of_not_lt hcontrol)
      rwa [encode, List.flatMap_singleton]

/-- A text is written by one of its spellings. -/
theorem textSpelled_flatMap_writeChar (cs : List Char) :
    TextSpelled cs (encode (cs.flatMap writeChar)) := by
  induction cs with
  | nil => exact .nil
  | cons c cs ih =>
      rw [List.flatMap_cons, encode_append]
      exact .cons (charSpelled_writeChar c) ih

end SentenceGuide.Json
