import SentenceGuide.Json.Number
import SentenceGuide.Json.Text

/-!
# Skipping a value

The value of a key that nobody asked for is passed over, whatever it holds and
however deep it is nested.  It must be well formed.

The walk keeps the brackets that are open, innermost first, and is in one of
four phases.  A value is due; a value has just ended; a bracket has just been
opened; or an item of a bracket is due, which in an object is a key, a colon and a
value.  Every step takes a byte or moves on to a phase that takes one.
-/

namespace SentenceGuide.Json

/-- The two kinds of brackets. -/
inductive Bracket where
  | list
  | object
  deriving DecidableEq, Repr

namespace Bracket

/-- The byte that closes it. -/
def closer : Bracket → UInt8
  | list => byte ']'
  | object => byte '}'

/-- The fault of a document that ends inside it. -/
def ended : Bracket → Reason
  | list => .endInList
  | object => .endInObject

/-- The fault of an item that neither a comma nor the closing byte follows. -/
def unfinished : Bracket → Reason
  | list => .expectedListCommaOrEnd
  | object => .expectedObjectCommaOrEnd

end Bracket

/-- What is due in the walk over a value. -/
inductive Phase where
  /-- A value. -/
  | value
  /-- What may follow a value. -/
  | after
  /-- The end of a bracket that has just been opened, or its first item. -/
  | opened (bracket : Bracket)
  /-- An item of a bracket. -/
  | item (bracket : Bracket)
  deriving DecidableEq, Repr

namespace Phase

/-- How many bytes a phase has surely behind it. -/
def taken : Phase → Nat
  | after => 1
  | _ => 0

/-- How many phases can follow without a byte being taken. -/
def rank : Phase → Nat
  | opened _ => 2
  | item _ => 1
  | _ => 0

end Phase

/-- Skips a value that is no bracket, whose first byte is `b`. -/
def skipScalar (b : UInt8) (rest : List UInt8) : Except Fault (Reading Unit (rest.length + 1)) :=
  let word (w : List Char) : Except Fault (Reading Unit (rest.length + 1)) :=
    match h : readWord w rest with
    | .error fault => .error fault
    | .ok more => .ok ⟨(), more, Nat.lt_succ_of_le (length_of_readWord h)⟩
  if b = byte 'n' then word ['u', 'l', 'l']
  else if b = byte 't' then word ['r', 'u', 'e']
  else if b = byte 'f' then word ['a', 'l', 's', 'e']
  else if b = byte '-' then (skipNumber rest).map (·.widen (Nat.le_succ _))
  else if isDigit b then skipNumber (b :: rest)
  else if b = byte '"' then (skipText rest).map (·.widen (Nat.le_succ _))
  else .error (.ahead .expectedValue (b :: rest))

theorem length_of_skipKey {bytes rest more : List UInt8} {b c : UInt8}
    (h : skipBlanks bytes = b :: rest) (key : Reading Unit rest.length)
    (hc : skipBlanks key.rest = c :: more) : more.length < bytes.length :=
  Nat.lt_trans (Nat.lt_trans (length_of_skipBlanks hc) key.shorter) (length_of_skipBlanks h)

/-- Skips the key and the colon of an item of an object. -/
def skipKey (bytes : List UInt8) : Result Unit bytes :=
  match h : skipBlanks bytes with
  | [] => .error (.ahead .endInObject [])
  | b :: rest =>
      if b ≠ byte '"' then .error (.ahead .keyMustBeString (b :: rest))
      else
        match skipText rest with
        | .error fault => .error fault
        | .ok key =>
            match hc : skipBlanks key.rest with
            | [] => .error (.ahead .endInObject [])
            | c :: more =>
                if c ≠ byte ':' then .error (.ahead .expectedColon (c :: more))
                else .ok ⟨(), more, length_of_skipKey h key hc⟩

/-- The walk over a value, inside some open brackets. -/
def skipFrom (bound : Nat) : (phase : Phase) → List Bracket → (bytes : List UInt8) →
    bytes.length + phase.taken ≤ bound → Except Fault (Reading Unit bound)
  | .value, brackets, bytes, within =>
      match h : skipBlanks bytes with
      | [] => .error (.ahead .endInValue [])
      | b :: rest =>
          have := length_of_skipBlanks h
          if b = byte '[' then
            skipFrom bound (.opened .list) brackets rest
              (by simp only [Phase.taken] at within ⊢; omega)
          else if b = byte '{' then
            skipFrom bound (.opened .object) brackets rest
              (by simp only [Phase.taken] at within ⊢; omega)
          else
            match skipScalar b rest with
            | .error fault => .error fault
            | .ok r =>
                have := r.shorter
                skipFrom bound .after brackets r.rest
                  (by simp only [Phase.taken] at within ⊢; omega)
  | .after, [], bytes, within => .ok ⟨(), bytes, within⟩
  | .after, bracket :: outer, bytes, within =>
      match h : skipBlanks bytes with
      | [] => .error (.ahead bracket.ended [])
      | b :: rest =>
          have := length_of_skipBlanks h
          if b = byte ',' then
            skipFrom bound (.item bracket) outer rest
              (by simp only [Phase.taken] at within ⊢; omega)
          else if b = bracket.closer then
            skipFrom bound .after outer rest
              (by simp only [Phase.taken] at within ⊢; omega)
          else .error (.ahead bracket.unfinished (b :: rest))
  | .opened bracket, brackets, bytes, within =>
      match h : skipBlanks bytes with
      | [] => .error (.ahead bracket.ended [])
      | b :: rest =>
          have := length_of_skipBlanks h
          if b = bracket.closer then
            skipFrom bound .after brackets rest
              (by simp only [Phase.taken] at within ⊢; omega)
          else skipFrom bound (.item bracket) brackets bytes within
  | .item .list, brackets, bytes, within =>
      skipFrom bound .value (.list :: brackets) bytes within
  | .item .object, brackets, bytes, within =>
      match skipKey bytes with
      | .error fault => .error fault
      | .ok key =>
          have := key.shorter
          skipFrom bound .value (.object :: brackets) key.rest
            (by simp only [Phase.taken] at within ⊢; omega)
termination_by phase _ bytes _ => 3 * bytes.length + phase.rank
decreasing_by all_goals simp only [Phase.rank]; omega

/-- Skips one value. -/
def skipValue : Reader Unit := fun bytes =>
  skipFrom bytes.length .value [] bytes (Nat.le_refl _)

/-! ## Tests -/

example : (outcome skipValue ("[1,\x7b\"a\":[null,1e999,-0,0.5]\x7d] ,".toUTF8.toList)).toOption =
    some ((), [0x20, 0x2C]) := by decide +kernel

example : (outcome skipValue ("[1,]".toUTF8.toList)).toOption = none ∧
    (outcome skipValue ("[01]".toUTF8.toList)).toOption = none := by decide +kernel

end SentenceGuide.Json
