import SentenceGuide.Json.Fault

/-!
# Reading a document

A document is read as bytes, from the front.  A reader either meets a fault or
gives a value and the bytes that are left, which are fewer than it was given.
The type of a reading carries that bound, so readers that repeat others end.

Blanks are the space, the tabulator and the two line ends of ASCII, and stand
between any two parts of a document.
-/

namespace SentenceGuide.Json

/-- The byte of an ASCII character. -/
def byte (c : Char) : UInt8 := c.toNat.toUInt8

/-- A value that has been read, and fewer than `bound` bytes that are left. -/
structure Reading (α : Type) (bound : Nat) where
  /-- The value. -/
  value : α
  /-- The bytes that are left. -/
  rest : List UInt8
  /-- They are fewer than the bound. -/
  shorter : rest.length < bound

/-- What reading some bytes gives. -/
abbrev Result (α : Type) (bytes : List UInt8) := Except Fault (Reading α bytes.length)

/-- A way to read a value off the front of some bytes. -/
abbrev Reader (α : Type) := (bytes : List UInt8) → Result α bytes

namespace Reading

variable {α β : Type} {n m : Nat}

/-- A reading under a larger bound. -/
def widen (r : Reading α n) (h : n ≤ m) : Reading α m :=
  ⟨r.value, r.rest, Nat.lt_of_lt_of_le r.shorter h⟩

/-- A reading of another value. -/
def map (f : α → β) (r : Reading α n) : Reading β n := ⟨f r.value, r.rest, r.shorter⟩

end Reading

theorem length_le_length_cons (b : UInt8) (rest : List UInt8) :
    rest.length ≤ (b :: rest).length :=
  Nat.le_succ rest.length

/-! ## Blanks -/

/-- The blanks of a document. -/
def isBlank (b : UInt8) : Bool := b == 32 || b == 9 || b == 10 || b == 13

/-- The bytes from the first that is no blank. -/
def skipBlanks (bytes : List UInt8) : List UInt8 := bytes.dropWhile isBlank

theorem length_skipBlanks_le (bytes : List UInt8) : (skipBlanks bytes).length ≤ bytes.length :=
  (List.dropWhile_sublist isBlank).length_le

theorem length_of_skipBlanks {bytes rest : List UInt8} {b : UInt8}
    (h : skipBlanks bytes = b :: rest) : rest.length < bytes.length := by
  have := length_skipBlanks_le bytes
  rw [h] at this
  exact this

/-! ## Words -/

/-- Reads the rest of one of the words `null`, `true` and `false`. -/
def readWord : List Char → (bytes : List UInt8) → Except Fault (List UInt8)
  | [], bytes => .ok bytes
  | _ :: _, [] => .error (.at .endInValue [])
  | c :: word, b :: bytes =>
      if b = byte c then readWord word bytes else .error (.at .expectedWord bytes)

theorem length_of_readWord {word : List Char} {bytes rest : List UInt8}
    (h : readWord word bytes = .ok rest) : rest.length ≤ bytes.length := by
  induction word generalizing bytes with
  | nil => cases h; exact Nat.le_refl _
  | cons c word ih =>
      cases bytes with
      | nil => cases h
      | cons b bytes =>
          simp only [readWord] at h
          split at h
          · exact Nat.le_succ_of_le (ih h)
          · cases h

/-! ## Tests -/

example : readWord ['u', 'l', 'l'] [0x75, 0x6C, 0x6C, 0x2C] = .ok [0x2C] := rfl

example : readWord ['u', 'l', 'l'] [0x75, 10] = .error (.at .expectedWord []) := rfl

end SentenceGuide.Json
