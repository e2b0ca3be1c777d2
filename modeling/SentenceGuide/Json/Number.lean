import SentenceGuide.Json.Reading

/-!
# Numbers in a document

A number is an optional minus sign, an integer without needless zeros in front,
an optional fraction and an optional exponent.  It ends where the next byte
cannot be part of it.

No field of a grammar is a number, so a number is read only to say what stands
where something else was wanted.  Then its value matters.  The digits are
gathered while they stay below 2^64.  Further digits only count as places.  An
integer that was gathered whole is shown as it is, and all else is rounded to 53
bits, which may be out of range.  Minus zero is no integer.

A number under a key that nobody asked for is skipped, whatever its size.  There
an early end is a fault of the number, and not an early end of the document.
-/

namespace SentenceGuide.Json

open Number (Binary64)

/-- Whether a byte is a decimal digit. -/
def isDigit (b : UInt8) : Bool := 48 ≤ b && b ≤ 57

/-- The value of a decimal digit. -/
def digit (b : UInt8) : Nat := b.toNat - 48

/-- Whether a byte starts an exponent. -/
def isExponent (b : UInt8) : Bool := b == byte 'e' || b == byte 'E'

/-- Gathers digits behind a significand while it stays below a limit. -/
def gatherDigits (limit significand : Nat) : List UInt8 → Nat × List UInt8
  | [] => (significand, [])
  | b :: rest =>
      if isDigit b && significand * 10 + digit b < limit then
        gatherDigits limit (significand * 10 + digit b) rest
      else (significand, b :: rest)

/-- The limit of a significand. -/
def significandLimit : Nat := Nat.pow 2 64

/-- The limit of an exponent. -/
def exponentLimit : Nat := Nat.pow 2 31

/-- The rounded value of a significand and a power of ten, at the end of a number. -/
def realAt (isNegative : Bool) (significand : Nat) (exponent : Int) (rest : List UInt8) :
    Except Fault (Found × List UInt8) :=
  match Binary64.ofDecimal significand exponent with
  | some size => .ok (.real isNegative size, rest)
  | none => .error ⟨.numberOutOfRange, rest, .seen⟩

/-- Reads the digits of an exponent.  One that reaches the limit leaves zero or
nothing in range. -/
def readExponentDigits (isNegative : Bool) (significand : Nat) (start : Int) (isSmall : Bool)
    (bytes : List UInt8) : Except Fault (Found × List UInt8) :=
  match bytes with
  | [] => .error (.at .endInValue [])
  | b :: rest =>
      if !isDigit b then .error (.at .invalidNumber rest)
      else
        let (exponent, rest) := gatherDigits exponentLimit (digit b) rest
        let place := if isSmall then start - exponent else start + exponent
        match rest with
        | [] => realAt isNegative significand place []
        | c :: more =>
            if isDigit c then
              if significand ≠ 0 ∧ !isSmall then .error (.at .numberOutOfRange more)
              else .ok (.real isNegative .zero, more.dropWhile isDigit)
            else realAt isNegative significand place (c :: more)

/-- Reads an exponent behind its letter. -/
def readExponent (isNegative : Bool) (significand : Nat) (start : Int) (bytes : List UInt8) :
    Except Fault (Found × List UInt8) :=
  match bytes with
  | b :: rest =>
      if b = byte '+' then readExponentDigits isNegative significand start false rest
      else if b = byte '-' then readExponentDigits isNegative significand start true rest
      else readExponentDigits isNegative significand start false bytes
  | [] => .error (.at .endInValue [])

/-- Reads the end of a number whose digits have been read. -/
def readScale (isNegative : Bool) (significand : Nat) (start : Int) (bytes : List UInt8) :
    Except Fault (Found × List UInt8) :=
  match bytes with
  | b :: rest =>
      if isExponent b then readExponent isNegative significand start rest
      else realAt isNegative significand start bytes
  | [] => realAt isNegative significand start []

/-- Reads a fraction behind its point.  Each digit gathered moves the last place. -/
def readFraction (isNegative : Bool) (significand : Nat) (start : Int) (bytes : List UInt8) :
    Except Fault (Found × List UInt8) :=
  match bytes with
  | [] => .error (.ahead .endInValue [])
  | b :: _ =>
      if !isDigit b then .error (.ahead .invalidNumber bytes)
      else
        let (significand, left) := gatherDigits significandLimit significand bytes
        let gathered : Int := bytes.length - left.length
        readScale isNegative significand (start - gathered) (left.dropWhile isDigit)

/-- Reads a number behind the digits of its integer.  `places` says how many of
them were not gathered. -/
def readNumberTail (isNegative : Bool) (significand places : Nat) (bytes : List UInt8) :
    Except Fault (Found × List UInt8) :=
  let whole : Except Fault (Found × List UInt8) :=
    if places ≠ 0 then realAt isNegative significand places bytes
    else if !isNegative then .ok (.natural significand, bytes)
    else if significand = 0 then .ok (.real true .zero, bytes)
    else if significand ≤ Nat.pow 2 63 then .ok (.negative significand, bytes)
    else realAt true significand 0 bytes
  match bytes with
  | b :: rest =>
      if b = byte '.' then readFraction isNegative significand places rest
      else if isExponent b then readExponent isNegative significand places rest
      else whole
  | [] => whole

/-- Reads a number behind its sign. -/
def readNumber (isNegative : Bool) (bytes : List UInt8) : Except Fault (Found × List UInt8) :=
  match bytes with
  | [] => .error (.at .endInValue [])
  | b :: rest =>
      if b = byte '0' then
        if (rest.head?.map isDigit).getD false then .error (.ahead .invalidNumber rest)
        else readNumberTail isNegative 0 0 rest
      else if isDigit b then
        let (significand, left) := gatherDigits significandLimit (digit b) rest
        let beyond := left.dropWhile isDigit
        readNumberTail isNegative significand (left.length - beyond.length) beyond
      else .error (.at .invalidNumber rest)

/-! ## Skipping -/

/-- The bytes behind some digits. -/
def skipDigits (bytes : List UInt8) : List UInt8 := bytes.dropWhile isDigit

theorem length_skipDigits_le (bytes : List UInt8) : (skipDigits bytes).length ≤ bytes.length :=
  (List.dropWhile_sublist isDigit).length_le

/-- Skips at least one digit of an exponent. -/
def skipExponentDigits : Reader Unit
  | [] => .error (.at .invalidNumber [])
  | b :: rest =>
      if isDigit b then
        .ok ⟨(), skipDigits rest, Nat.lt_succ_of_le (length_skipDigits_le rest)⟩
      else .error (.at .invalidNumber rest)

/-- Skips an exponent behind its letter. -/
def skipExponent : Reader Unit := fun bytes =>
  match bytes with
  | b :: rest =>
      if b = byte '+' ∨ b = byte '-' then (skipExponentDigits rest).map (·.widen (by simp))
      else skipExponentDigits (b :: rest)
  | [] => .error (.at .invalidNumber [])

/-- Skips what may stand behind the digits of a number: an exponent, or nothing. -/
def skipScale (bytes : List UInt8) : Except Fault (Reading Unit (bytes.length + 1)) :=
  match bytes with
  | b :: rest =>
      if isExponent b then
        (skipExponent rest).map (·.widen (Nat.le_add_right_of_le (Nat.le_succ _)))
      else .ok ⟨(), b :: rest, by simp⟩
  | [] => .ok ⟨(), [], by simp⟩

/-- Skips a fraction behind its point, and what follows it. -/
def skipFraction : Reader Unit
  | b :: rest =>
      if isDigit b then
        (skipScale (skipDigits rest)).map
          (·.widen (Nat.succ_le_succ (length_skipDigits_le rest)))
      else .error (.ahead .invalidNumber (b :: rest))
  | [] => .error (.ahead .invalidNumber [])

/-- Skips what may stand behind the integer of a number. -/
def skipNumberTail (bytes : List UInt8) : Except Fault (Reading Unit (bytes.length + 1)) :=
  match bytes with
  | b :: rest =>
      if b = byte '.' then
        (skipFraction rest).map (·.widen (Nat.le_add_right_of_le (Nat.le_succ _)))
      else skipScale (b :: rest)
  | [] => .ok ⟨(), [], by simp⟩

/-- Skips a number behind its sign. -/
def skipNumber : Reader Unit
  | [] => .error (.at .invalidNumber [])
  | b :: rest =>
      if b = byte '0' then
        if (rest.head?.map isDigit).getD false then .error (.ahead .invalidNumber rest)
        else (skipNumberTail rest).map (·.widen (by simp))
      else if isDigit b then
        (skipNumberTail (skipDigits rest)).map
          (·.widen (Nat.succ_le_succ (length_skipDigits_le rest)))
      else .error (.at .invalidNumber rest)

/-! ## Tests -/

example : (readNumber false [0x31, 0x65, 0x35]).toOption =
    some (.real false ⟨100000 * 2 ^ 36, -36⟩, []) := by decide +kernel

example : (readNumber true [0x33, 0x7D]).toOption = some (.negative 3, [0x7D]) := by
  decide +kernel

example : readNumber false [0x30, 0x31] = .error (.ahead .invalidNumber [0x31]) := rfl

example : readNumber false [0x31, 0x2E] = .error (.ahead .endInValue []) := rfl

end SentenceGuide.Json
