import SentenceGuide.Json.Reading

/-!
# Documents that arrive byte by byte

A reader of a stream takes the next byte, or looks at it and leaves it.  A byte that has
been looked at has arrived.  The stream holds it until it is taken, and counts it already.
So a fault, which stands where the last byte that has arrived stands, may be one byte
further than a reader of the whole document would place it.

A reader gives a value and the stream behind it, or a fault.  There is less left of that
stream than there was before, and the type of a reading says so.
-/

namespace SentenceGuide.Json

/-- The place behind one more byte. -/
def Position.next (place : Position) (b : UInt8) : Position :=
  if b = 10 then ⟨place.line + 1, 0⟩ else ⟨place.line, place.column + 1⟩

/-- A document of which some bytes have arrived. -/
structure Stream where
  /-- The byte that has been looked at, but not taken. -/
  held : Option UInt8
  /-- The bytes that have not arrived. -/
  coming : List UInt8
  /-- Where the last byte that has arrived stands. -/
  place : Position

namespace Stream

/-- A document of which nothing has arrived. -/
def start (document : List UInt8) : Stream := ⟨none, document, ⟨1, 0⟩⟩

/-- The bytes that have not been taken. -/
def bytes (s : Stream) : List UInt8 := s.held.toList ++ s.coming

/-- How many bytes have not been taken. -/
def left (s : Stream) : Nat := s.bytes.length

/-- The stream before the byte that was taken last.  The byte has been looked at. -/
def holding (s : Stream) (b : UInt8) : Stream := { s with held := some b }

/-- A cause, and where the last byte that has arrived stands. -/
structure Fault where
  /-- What is wrong. -/
  reason : Reason
  /-- Where it was found. -/
  place : Position
  deriving DecidableEq, Repr

/-- A fault that is found now. -/
def fault (s : Stream) (reason : Reason) : Fault := ⟨reason, s.place⟩

/-! ## Bytes -/

/-- What is next in a stream that less than `bound` is left of then. -/
inductive Next (bound : Nat) where
  /-- Nothing, and all has arrived. -/
  | ended (place : Position)
  /-- A byte, and the stream behind it. -/
  | byte (b : UInt8) (rest : Stream) (shorter : rest.left < bound)

/-- What is next, under a larger bound. -/
def Next.widen {n m : Nat} (h : n ≤ m) : Next n → Next m
  | ended place => .ended place
  | byte b rest shorter => .byte b rest (Nat.lt_of_lt_of_le shorter h)

theorem left_lt_of_held (b : UInt8) (coming : List UInt8) (place : Position) :
    (mk none coming place).left < (mk (some b) coming place).left :=
  Nat.lt_succ_self coming.length

theorem left_lt_of_coming (b : UInt8) (coming : List UInt8) (place : Position) :
    (mk none coming (place.next b)).left < (mk none (b :: coming) place).left :=
  Nat.lt_succ_self coming.length

/-- Takes the next byte. -/
def next : (s : Stream) → Next s.left
  | ⟨some b, coming, place⟩ => .byte b ⟨none, coming, place⟩ (left_lt_of_held b coming place)
  | ⟨none, [], place⟩ => .ended place
  | ⟨none, b :: coming, place⟩ =>
      .byte b ⟨none, coming, place.next b⟩ (left_lt_of_coming b coming place)

theorem left_le_of_lt {s rest : Stream} (h : rest.left < s.left) : rest.left ≤ s.left :=
  Nat.le_of_lt h

theorem left_lt_succ (s : Stream) : s.left < s.left + 1 := Nat.lt_succ_self s.left

/-- Takes the next byte that is no blank, and the blanks before it. -/
def nextVisible (s : Stream) : Next s.left :=
  match s.next with
  | .ended place => .ended place
  | .byte b rest shorter =>
      if isBlank b then rest.nextVisible.widen (left_le_of_lt shorter) else .byte b rest shorter
termination_by s.left

/-! ## Readings -/

/-- A value that has been read, and the stream behind it, of which less than `bound` is
left. -/
structure Reading (α : Type) (bound : Nat) where
  /-- The value. -/
  value : α
  /-- The stream behind it. -/
  rest : Stream
  /-- Less than the bound is left of it. -/
  shorter : rest.left < bound

namespace Reading

variable {α β : Type} {n m : Nat}

/-- A reading under a larger bound. -/
def widen (r : Reading α n) (h : n ≤ m) : Reading α m :=
  ⟨r.value, r.rest, Nat.lt_of_lt_of_le r.shorter h⟩

/-- A reading of another value. -/
def map (f : α → β) (r : Reading α n) : Reading β n := ⟨f r.value, r.rest, r.shorter⟩

end Reading

/-- A way to read a value off a stream. -/
abbrev Reader (α : Type) := (s : Stream) → Except Fault (Reading α s.left)

theorem left_holding_le (s : Stream) (b : UInt8) : (s.holding b).left ≤ s.left + 1 := by
  obtain ⟨_ | _, coming, place⟩ := s
  · exact Nat.le_refl _
  · exact Nat.le_succ _

theorem left_holding_le_of_lt {bound : Nat} {rest : Stream} {b : UInt8} (h : rest.left < bound) :
    (rest.holding b).left ≤ bound :=
  Nat.le_trans (left_holding_le rest b) h

/-! ## Words -/

/-- Reads the rest of one of the words `null`, `true` and `false`. -/
def readWord : List Char → (s : Stream) → Except Fault (Reading Unit (s.left + 1))
  | [], s => .ok ⟨(), s, left_lt_succ s⟩
  | c :: word, s =>
      match s.next with
      | .ended place => .error ⟨.endInValue, place⟩
      | .byte b rest shorter =>
          if b = byte c then
            (readWord word rest).map (·.widen (Nat.succ_le_succ (Nat.le_of_lt shorter)))
          else .error (rest.fault .expectedWord)

end Stream

end SentenceGuide.Json
