import SentenceGuide.Json.Reading
import SentenceGuide.Text.Utf8

/-!
# Texts in a document

A text stands between double quotes.  A quote, a backslash and the characters
below U+0020 cannot stand in it as they are.  A backslash writes one of the
quote, the backslash, the slash and five control characters by a letter, or any
code unit by four hexadecimal digits behind `u`.  Two such units that are a
leading and a trailing surrogate write one character beyond U+FFFF.  A surrogate
by itself writes nothing.

Reading gathers the bytes of the text, each escape as the spelling of its
character, and decodes them when the closing quote is met.  If they spell no
text, the place of the fault goes back by the bytes that were left over.
Skipping a text checks less: it does not ask what its units write, nor whether
its bytes spell a text.

A control character that is met in reading has been read when it is refused.  In
skipping it has only been seen.  So a newline counts for the place of the fault
when a text is read, but does not when a document at hand is skipped through.
-/

namespace SentenceGuide.Json

open Text (Utf8.encodeChar Utf8.decode Utf8.stray)

/-- The value of a hexadecimal digit. -/
def hexDigit (b : UInt8) : Option Nat :=
  let n := b.toNat
  if 0x30 ≤ n ∧ n ≤ 0x39 then some (n - 0x30)
  else if 0x41 ≤ n ∧ n ≤ 0x46 then some (n - 0x41 + 10)
  else if 0x61 ≤ n ∧ n ≤ 0x66 then some (n - 0x61 + 10)
  else none

/-- The value of four hexadecimal digits. -/
def hexValue (a b c d : UInt8) : Option Nat := do
  let a ← hexDigit a
  let b ← hexDigit b
  let c ← hexDigit c
  let d ← hexDigit d
  pure (((a * 16 + b) * 16 + c) * 16 + d)

/-- Reads the four digits behind `\u`. -/
def readHex : Reader Nat
  | a :: b :: c :: d :: rest =>
      match hexValue a b c d with
      | some n => .ok ⟨n, rest, by simp only [List.length_cons]; omega⟩
      | none => .error (.at .invalidEscape rest)
  | _ => .error (.at .endInString [])

/-- The character that a letter behind a backslash writes. -/
def escapeLetter (b : UInt8) : Option UInt8 :=
  if b = byte '"' ∨ b = byte '\\' ∨ b = byte '/' then some b
  else if b = byte 'b' then some 8
  else if b = byte 'f' then some 12
  else if b = byte 'n' then some 10
  else if b = byte 'r' then some 13
  else if b = byte 't' then some 9
  else none

/-- A unit that only leads a pair. -/
def isLeading (n : Nat) : Bool := 0xD800 ≤ n && n ≤ 0xDBFF

/-- A unit that only trails a pair. -/
def isTrailing (n : Nat) : Bool := 0xDC00 ≤ n && n ≤ 0xDFFF

/-- The character that a pair of units writes. -/
def pairedChar (leading trailing : Nat) : Char :=
  Char.ofNat ((leading - 0xD800) * 0x400 + (trailing - 0xDC00) + 0x10000)

/-- Reads the unit or the pair of units behind `\u`, as the bytes of its character. -/
def readUnits : Reader (List UInt8) := fun bytes =>
  match readHex bytes with
  | .error fault => .error fault
  | .ok first =>
      if isTrailing first.value then .error (.at .loneSurrogate first.rest)
      else if !isLeading first.value then
        .ok (first.map fun n => Utf8.encodeChar (Char.ofNat n))
      else
        match h : first.rest with
        | [] => .error (.at .endInString [])
        | b :: rest =>
            if b ≠ byte '\\' then .error (.at .endOfHexEscape rest)
            else
              match rest with
              | [] => .error (.at .endInString [])
              | u :: rest =>
                  if u ≠ byte 'u' then .error (.at .endOfHexEscape rest)
                  else
                    match readHex rest with
                    | .error fault => .error fault
                    | .ok second =>
                        if isTrailing second.value then
                          .ok ((second.map
                            (fun n => Utf8.encodeChar (pairedChar first.value n))).widen (by
                              have := first.shorter
                              rw [h] at this
                              simp only [List.length_cons] at this
                              omega))
                        else .error (.at .loneSurrogate second.rest)

/-- Reads what stands behind a backslash, as the bytes of its character. -/
def readEscape : Reader (List UInt8)
  | [] => .error (.at .endInString [])
  | b :: rest =>
      match escapeLetter b with
      | some letter => .ok ⟨[letter], rest, by simp⟩
      | none =>
          if b = byte 'u' then (readUnits rest).map (·.widen (length_le_length_cons b rest))
          else .error (.at .invalidEscape rest)

/-- Reads the bytes of a text behind those already gathered, up to its closing
quote.  Those are written backwards. -/
def gatherText (bound : Nat) (done bytes : List UInt8) (within : bytes.length ≤ bound) :
    Except Fault (Reading (List UInt8) bound) :=
  match bytes, within with
  | [], _ => .error (.at .endInString [])
  | b :: rest, within =>
      if b = byte '"' then .ok ⟨done.reverse, rest, within⟩
      else if b = byte '\\' then
        match readEscape rest with
        | .error fault => .error fault
        | .ok escaped =>
            have := escaped.shorter
            gatherText bound (escaped.value.reverse ++ done) escaped.rest
              (by simp only [List.length_cons] at within; omega)
      else if b < 32 then .error (.at .controlCharacter rest)
      else gatherText bound (b :: done) rest (Nat.le_of_succ_le within)
termination_by bytes.length
decreasing_by
  · simp only [List.length_cons]; omega
  · simp

/-- The bytes that count as unread when a text that has been read to its closing
quote spells no characters: those behind the quote, and as many before them as
were gathered from the first byte on that is part of no character. -/
def strayRest (bytes gathered rest : List UInt8) : List UInt8 :=
  bytes.drop (bytes.length - (rest.length + Utf8.stray gathered))

/-- Reads a text behind its opening quote. -/
def readText : Reader String := fun bytes =>
  match gatherText bytes.length [] bytes (Nat.le_refl _) with
  | .error fault => .error fault
  | .ok r =>
      match Utf8.decode r.value with
      | some cs => .ok (r.map fun _ => String.ofList cs)
      | none => .error (.at .invalidCodePoint (strayRest bytes r.value r.rest))

/-- Skips what stands behind a backslash. -/
def skipEscape : Reader Unit
  | [] => .error (.at .endInString [])
  | b :: rest =>
      match escapeLetter b with
      | some _ => .ok ⟨(), rest, by simp⟩
      | none =>
          if b = byte 'u' then
            (readHex rest).map fun r => (r.map fun _ => ()).widen (length_le_length_cons b rest)
          else .error (.at .invalidEscape rest)

/-- Skips a text up to its closing quote. -/
def skipTextWithin (bound : Nat) (bytes : List UInt8) (within : bytes.length ≤ bound) :
    Except Fault (Reading Unit bound) :=
  match bytes, within with
  | [], _ => .error (.at .endInString [])
  | b :: rest, within =>
      if b = byte '"' then .ok ⟨(), rest, within⟩
      else if b = byte '\\' then
        match skipEscape rest with
        | .error fault => .error fault
        | .ok escaped =>
            have := escaped.shorter
            skipTextWithin bound escaped.rest
              (by simp only [List.length_cons] at within; omega)
      else if b < 32 then .error ⟨.controlCharacter, b :: rest, .seen⟩
      else skipTextWithin bound rest (Nat.le_of_succ_le within)
termination_by bytes.length
decreasing_by
  · simp only [List.length_cons]; omega
  · simp

/-- Skips a text behind its opening quote. -/
def skipText : Reader Unit := fun bytes =>
  skipTextWithin bytes.length bytes (Nat.le_refl _)

/-! ## Tests -/

/-- What a reader makes of some bytes, without the bound. -/
def outcome {α : Type} (read : Reader α) (bytes : List UInt8) : Except Fault (α × List UInt8) :=
  (read bytes).map fun r => (r.value, r.rest)

example : (outcome readText [0x61, 0x22, 0x2C]).toOption = some ("a", [0x2C]) := by decide +kernel

example : (outcome readText [0x5C, 0x6E, 0x5C, 0x22, 0x22]).toOption = some ("\n\"", []) := by
  decide +kernel

example : (outcome readText ("\\ud83d\\ude00\"".toUTF8.toList)).toOption = some ("😀", []) := by
  decide +kernel

example : (readText [0x61, 0xFF, 0x62, 0x22, 0x2C]).toOption.isNone = true ∧
    strayRest [0x61, 0xFF, 0x62, 0x22, 0x2C] [0x61, 0xFF, 0x62] [0x2C] = [0x62, 0x22, 0x2C] := by
  decide +kernel

example : (outcome readText ("\\ude00\"".toUTF8.toList)).toOption = none ∧
    (outcome skipText ("\\ude00\"".toUTF8.toList)).toOption = some ((), []) := by
  decide +kernel

end SentenceGuide.Json
