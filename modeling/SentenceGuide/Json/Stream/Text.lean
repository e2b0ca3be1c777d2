import SentenceGuide.Json.Stream.Basic
import SentenceGuide.Json.Text

/-!
# Texts that arrive byte by byte

A text in a stream is read as one in a document at hand is.  Its bytes are gathered as
they arrive, and decoded when the closing quote has.  A control character has always
arrived when it is refused, whether the text is read or skipped.
-/

namespace SentenceGuide.Json.Stream

open Text (Utf8.encodeChar Utf8.decode Utf8.stray)

/-- Takes one of the four digits behind `\u`. -/
def nextDigit (s : Stream) : Except Fault (Reading UInt8 s.left) :=
  match s.next with
  | .ended place => .error ⟨.endInString, place⟩
  | .byte b rest shorter => .ok ⟨b, rest, shorter⟩

theorem left_lt_of_digits {s : Stream} (a : Reading UInt8 s.left) (b : Reading UInt8 a.rest.left)
    (c : Reading UInt8 b.rest.left) (d : Reading UInt8 c.rest.left) : d.rest.left < s.left :=
  Nat.lt_trans d.shorter (Nat.lt_trans c.shorter (Nat.lt_trans b.shorter a.shorter))

/-- Reads the four digits behind `\u`. -/
def readHex : Reader Nat := fun s =>
  match s.nextDigit with
  | .error fault => .error fault
  | .ok a =>
      match a.rest.nextDigit with
      | .error fault => .error fault
      | .ok b =>
          match b.rest.nextDigit with
          | .error fault => .error fault
          | .ok c =>
              match c.rest.nextDigit with
              | .error fault => .error fault
              | .ok d =>
                  match hexValue a.value b.value c.value d.value with
                  | some n => .ok ⟨n, d.rest, left_lt_of_digits a b c d⟩
                  | none => .error (d.rest.fault .invalidEscape)

/-- Takes a byte that must stand between two units. -/
def nextOfPair (c : Char) (s : Stream) : Except Fault (Reading Unit s.left) :=
  match s.next with
  | .ended place => .error ⟨.endInString, place⟩
  | .byte b rest shorter =>
      if b = byte c then .ok ⟨(), rest, shorter⟩ else .error (rest.fault .endOfHexEscape)

theorem left_lt_of_units {s : Stream} (first : Reading Nat s.left)
    (backslash : Reading Unit first.rest.left) (letter : Reading Unit backslash.rest.left)
    (second : Reading Nat letter.rest.left) : second.rest.left < s.left :=
  Nat.lt_trans second.shorter
    (Nat.lt_trans letter.shorter (Nat.lt_trans backslash.shorter first.shorter))

/-- Reads the unit or the pair of units behind `\u`, as the bytes of its character. -/
def readUnits : Reader (List UInt8) := fun s =>
  match readHex s with
  | .error fault => .error fault
  | .ok first =>
      if isTrailing first.value then .error (first.rest.fault .loneSurrogate)
      else if !isLeading first.value then
        .ok (first.map fun n => Utf8.encodeChar (Char.ofNat n))
      else
        match first.rest.nextOfPair '\\' with
        | .error fault => .error fault
        | .ok backslash =>
            match backslash.rest.nextOfPair 'u' with
            | .error fault => .error fault
            | .ok letter =>
                match readHex letter.rest with
                | .error fault => .error fault
                | .ok second =>
                    if isTrailing second.value then
                      .ok ⟨Utf8.encodeChar (pairedChar first.value second.value), second.rest,
                        left_lt_of_units first backslash letter second⟩
                    else .error (second.rest.fault .loneSurrogate)

/-- Reads what stands behind a backslash, as the bytes of its character. -/
def readEscape : Reader (List UInt8) := fun s =>
  match s.next with
  | .ended place => .error ⟨.endInString, place⟩
  | .byte b rest shorter =>
      match escapeLetter b with
      | some letter => .ok ⟨[letter], rest, shorter⟩
      | none =>
          if b = byte 'u' then (readUnits rest).map (·.widen (left_le_of_lt shorter))
          else .error (rest.fault .invalidEscape)

/-- Reads the bytes of a text behind those already gathered, which are written
backwards, up to its closing quote. -/
def gatherText (done : List UInt8) : Reader (List UInt8) := fun s =>
  match s.next with
  | .ended place => .error ⟨.endInString, place⟩
  | .byte b rest shorter =>
      if b = byte '"' then .ok ⟨done.reverse, rest, shorter⟩
      else if b = byte '\\' then
        match readEscape rest with
        | .error fault => .error fault
        | .ok escaped =>
            have := Nat.lt_trans escaped.shorter shorter
            (gatherText (escaped.value.reverse ++ done) escaped.rest).map
              (·.widen (Nat.le_of_lt this))
      else if b < 32 then .error (rest.fault .controlCharacter)
      else (gatherText (b :: done) rest).map (·.widen (left_le_of_lt shorter))
termination_by s => s.left

/-- The fault of a text whose bytes spell no characters.  Its place goes back by the
bytes from the first on that is part of none. -/
def strayFault (place : Position) (gathered : List UInt8) : Fault :=
  ⟨.invalidCodePoint, ⟨place.line, place.column - Utf8.stray gathered⟩⟩

/-- Reads a text behind its opening quote. -/
def readText : Reader String := fun s =>
  match gatherText [] s with
  | .error fault => .error fault
  | .ok r =>
      match Utf8.decode r.value with
      | some cs => .ok (r.map fun _ => String.ofList cs)
      | none => .error (strayFault r.rest.place r.value)

/-- Skips what stands behind a backslash. -/
def skipEscape : Reader Unit := fun s =>
  match s.next with
  | .ended place => .error ⟨.endInString, place⟩
  | .byte b rest shorter =>
      match escapeLetter b with
      | some _ => .ok ⟨(), rest, shorter⟩
      | none =>
          if b = byte 'u' then
            (readHex rest).map fun r => (r.map fun _ => ()).widen (left_le_of_lt shorter)
          else .error (rest.fault .invalidEscape)

/-- Skips a text behind its opening quote. -/
def skipText : Reader Unit := fun s =>
  match s.next with
  | .ended place => .error ⟨.endInString, place⟩
  | .byte b rest shorter =>
      if b = byte '"' then .ok ⟨(), rest, shorter⟩
      else if b = byte '\\' then
        match skipEscape rest with
        | .error fault => .error fault
        | .ok escaped =>
            have := Nat.lt_trans escaped.shorter shorter
            (skipText escaped.rest).map (·.widen (Nat.le_of_lt this))
      else if b < 32 then .error (rest.fault .controlCharacter)
      else (skipText rest).map (·.widen (left_le_of_lt shorter))
termination_by s => s.left

end SentenceGuide.Json.Stream
