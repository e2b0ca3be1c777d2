import SentenceGuide.Json.Number
import SentenceGuide.Json.Stream.Basic

/-!
# Numbers that arrive byte by byte

A number ends where the next byte cannot be part of it.  A reader of a stream has to look
at that byte, so it has arrived and is held when a number has been read.  The digits are
counted while they are taken.
-/

namespace SentenceGuide.Json.Stream

open Number (Binary64)

/-- Gathers digits behind a significand while it stays below a limit.  Gives the
significand, how many digits were taken, and the stream behind them. -/
def gatherDigits (limit significand : Nat) (s : Stream) : Nat × Nat × Stream :=
  match s.next with
  | .ended _ => (significand, 0, s)
  | .byte b rest _ =>
      if isDigit b && significand * 10 + digit b < limit then
        let (significand, taken, rest) := gatherDigits limit (significand * 10 + digit b) rest
        (significand, taken + 1, rest)
      else (significand, 0, rest.holding b)
termination_by s.left

/-- Takes digits.  Gives how many, and the stream behind them. -/
def takeDigits (s : Stream) : Nat × Stream :=
  match s.next with
  | .ended _ => (0, s)
  | .byte b rest _ =>
      if isDigit b then
        let (taken, rest) := takeDigits rest
        (taken + 1, rest)
      else (0, rest.holding b)
termination_by s.left

/-- The rounded value of a significand and a power of ten, at the end of a number. -/
def realAt (isNegative : Bool) (significand : Nat) (exponent : Int) (s : Stream) :
    Except Fault (Found × Stream) :=
  match Binary64.ofDecimal significand exponent with
  | some size => .ok (.real isNegative size, s)
  | none => .error (s.fault .numberOutOfRange)

/-- Reads the digits of an exponent. -/
def readExponentDigits (isNegative : Bool) (significand : Nat) (start : Int) (isSmall : Bool)
    (s : Stream) : Except Fault (Found × Stream) :=
  match s.next with
  | .ended place => .error ⟨.endInValue, place⟩
  | .byte b rest _ =>
      if !isDigit b then .error (rest.fault .invalidNumber)
      else
        let (exponent, _, rest) := gatherDigits exponentLimit (digit b) rest
        let scale := if isSmall then start - exponent else start + exponent
        match rest.next with
        | .ended _ => realAt isNegative significand scale rest
        | .byte c more _ =>
            if isDigit c then
              if significand ≠ 0 ∧ !isSmall then .error (more.fault .numberOutOfRange)
              else .ok (.real isNegative .zero, more.takeDigits.2)
            else realAt isNegative significand scale (more.holding c)

/-- Reads an exponent behind its letter. -/
def readExponent (isNegative : Bool) (significand : Nat) (start : Int) (s : Stream) :
    Except Fault (Found × Stream) :=
  match s.next with
  | .ended place => .error ⟨.endInValue, place⟩
  | .byte b rest _ =>
      if b = byte '+' then readExponentDigits isNegative significand start false rest
      else if b = byte '-' then readExponentDigits isNegative significand start true rest
      else readExponentDigits isNegative significand start false (rest.holding b)

/-- Reads the end of a number whose digits have been read. -/
def readScale (isNegative : Bool) (significand : Nat) (start : Int) (s : Stream) :
    Except Fault (Found × Stream) :=
  match s.next with
  | .ended _ => realAt isNegative significand start s
  | .byte b rest _ =>
      if isExponent b then readExponent isNegative significand start rest
      else realAt isNegative significand start (rest.holding b)

/-- Reads a fraction behind its point. -/
def readFraction (isNegative : Bool) (significand : Nat) (start : Int) (s : Stream) :
    Except Fault (Found × Stream) :=
  match s.next with
  | .ended place => .error ⟨.endInValue, place⟩
  | .byte b rest _ =>
      if !isDigit b then .error (rest.fault .invalidNumber)
      else
        let (significand, taken, rest) :=
          gatherDigits significandLimit significand (rest.holding b)
        readScale isNegative significand (start - taken) rest.takeDigits.2

/-- The value of a number that is no more than its integer. -/
def wholeAt (isNegative : Bool) (significand places : Nat) (s : Stream) :
    Except Fault (Found × Stream) :=
  if places ≠ 0 then realAt isNegative significand places s
  else if !isNegative then .ok (.natural significand, s)
  else if significand = 0 then .ok (.real true .zero, s)
  else if significand ≤ Nat.pow 2 63 then .ok (.negative significand, s)
  else realAt true significand 0 s

/-- Reads a number behind the digits of its integer.  `places` says how many of them
were not gathered. -/
def readNumberTail (isNegative : Bool) (significand places : Nat) (s : Stream) :
    Except Fault (Found × Stream) :=
  match s.next with
  | .ended _ => wholeAt isNegative significand places s
  | .byte b rest _ =>
      if b = byte '.' then readFraction isNegative significand places rest
      else if isExponent b then readExponent isNegative significand places rest
      else wholeAt isNegative significand places (rest.holding b)

/-- Reads a number behind its sign. -/
def readNumber (isNegative : Bool) (s : Stream) : Except Fault (Found × Stream) :=
  match s.next with
  | .ended place => .error ⟨.endInValue, place⟩
  | .byte b rest _ =>
      if b = byte '0' then
        match rest.next with
        | .ended _ => readNumberTail isNegative 0 0 rest
        | .byte c more _ =>
            if isDigit c then .error (more.fault .invalidNumber)
            else readNumberTail isNegative 0 0 (more.holding c)
      else if isDigit b then
        let (significand, _, rest) := gatherDigits significandLimit (digit b) rest
        let (places, rest) := rest.takeDigits
        readNumberTail isNegative significand places rest
      else .error (rest.fault .invalidNumber)

/-! ## Skipping -/

theorem left_takeDigits_le (s : Stream) : s.takeDigits.2.left ≤ s.left := by
  fun_induction takeDigits s with
  | case1 => exact Nat.le_refl _
  | case2 s b rest shorter _ _ taken rest' heq ih =>
      rw [heq] at ih
      exact Nat.le_trans ih (Nat.le_of_lt shorter)
  | case3 s b rest shorter => exact left_holding_le_of_lt shorter

/-- Skips at least one digit of an exponent. -/
def skipExponentDigits : Reader Unit := fun s =>
  match s.next with
  | .ended place => .error ⟨.invalidNumber, place⟩
  | .byte b rest shorter =>
      if isDigit b then
        .ok ⟨(), rest.takeDigits.2, Nat.lt_of_le_of_lt (left_takeDigits_le rest) shorter⟩
      else .error (rest.fault .invalidNumber)

/-- Skips an exponent behind its letter. -/
def skipExponent : Reader Unit := fun s =>
  match s.next with
  | .ended place => .error ⟨.invalidNumber, place⟩
  | .byte b rest shorter =>
      if b = byte '+' ∨ b = byte '-' then
        (skipExponentDigits rest).map (·.widen (left_le_of_lt shorter))
      else
        (skipExponentDigits (rest.holding b)).map (·.widen (left_holding_le_of_lt shorter))

/-- Skips what may stand behind the digits of a number: an exponent, or nothing. -/
def skipScale (s : Stream) : Except Fault (Reading Unit (s.left + 1)) :=
  match s.next with
  | .ended _ => .ok ⟨(), s, left_lt_succ s⟩
  | .byte b rest shorter =>
      if isExponent b then
        (skipExponent rest).map (·.widen (Nat.le_succ_of_le (Nat.le_of_lt shorter)))
      else .ok ⟨(), rest.holding b, Nat.lt_succ_of_le (left_holding_le_of_lt shorter)⟩

/-- Skips a fraction behind its point, and what follows it. -/
def skipFraction : Reader Unit := fun s =>
  match s.next with
  | .ended place => .error ⟨.invalidNumber, place⟩
  | .byte b rest shorter =>
      if isDigit b then
        (skipScale rest.takeDigits.2).map
          (·.widen (Nat.lt_of_le_of_lt (left_takeDigits_le rest) shorter))
      else .error (rest.fault .invalidNumber)

/-- Skips what may stand behind the integer of a number. -/
def skipNumberTail (s : Stream) : Except Fault (Reading Unit (s.left + 1)) :=
  match s.next with
  | .ended _ => .ok ⟨(), s, left_lt_succ s⟩
  | .byte b rest shorter =>
      if b = byte '.' then
        (skipFraction rest).map (·.widen (Nat.le_succ_of_le (Nat.le_of_lt shorter)))
      else
        (skipScale (rest.holding b)).map
          (·.widen (Nat.succ_le_succ (left_holding_le_of_lt shorter)))

theorem left_holding_lt {n m : Nat} {rest : Stream} {b : UInt8} (h : rest.left < m)
    (h' : m < n) : (rest.holding b).left + 1 ≤ n :=
  Nat.lt_of_le_of_lt (left_holding_le_of_lt h) h'

/-- Skips a number behind its sign. -/
def skipNumber : Reader Unit := fun s =>
  match s.next with
  | .ended place => .error ⟨.invalidNumber, place⟩
  | .byte b rest shorter =>
      if b = byte '0' then
        match rest.next with
        | .ended _ => (skipNumberTail rest).map (·.widen shorter)
        | .byte c more shorter' =>
            if isDigit c then .error (more.fault .invalidNumber)
            else
              (skipNumberTail (more.holding c)).map (·.widen (left_holding_lt shorter' shorter))
      else if isDigit b then
        (skipNumberTail rest.takeDigits.2).map
          (·.widen (Nat.lt_of_le_of_lt (left_takeDigits_le rest) shorter))
      else .error (rest.fault .invalidNumber)

end SentenceGuide.Json.Stream
