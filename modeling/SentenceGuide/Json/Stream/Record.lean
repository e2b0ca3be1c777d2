import SentenceGuide.Json.Record
import SentenceGuide.Json.Stream.Skip

/-!
# Typed values that arrive byte by byte

Texts, flags, lists and records are read off a stream as they are from a document at
hand.  A shape gives the names of a record and of its fields, and their values are read by
two readers of streams.

Whatever is wrong with the fields of a record, its end is tried before the fault is placed.
-/

namespace SentenceGuide.Json.Stream

/-! ## Refusing a value of another type -/

/-- The fault of a value that is none of its place, whose first byte is `b`. -/
def wrongType (expected : Expected) (b : UInt8) (rest : Stream) : Fault :=
  let fault (found : Found) (s : Stream) : Fault := s.fault (.data (.wrongType found expected))
  let word (w : List Char) (found : Found) : Fault :=
    match readWord w rest with
    | .error e => e
    | .ok r => fault found r.rest
  let number (isNegative : Bool) (s : Stream) : Fault :=
    match readNumber isNegative s with
    | .error e => e
    | .ok (found, s) => fault found s
  if b = byte 'n' then word ['u', 'l', 'l'] .null
  else if b = byte 't' then word ['r', 'u', 'e'] (.boolean true)
  else if b = byte 'f' then word ['a', 'l', 's', 'e'] (.boolean false)
  else if b = byte '-' then number true rest
  else if isDigit b then number false (rest.holding b)
  else if b = byte '"' then
    match readText rest with
    | .error e => e
    | .ok r => fault (.text r.value) r.rest
  else if b = byte '[' then fault .sequence rest
  else if b = byte '{' then fault .map rest
  else rest.fault .expectedValue

/-! ## Texts and flags -/

/-- Reads a text. -/
def readString : Reader String := fun s =>
  match s.nextVisible with
  | .ended place => .error ⟨.endInValue, place⟩
  | .byte b rest shorter =>
      if b = byte '"' then (readText rest).map (·.widen (left_le_of_lt shorter))
      else .error (wrongType .text b rest)

/-- Reads a flag. -/
def readFlag : Reader Bool := fun s =>
  match s.nextVisible with
  | .ended place => .error ⟨.endInValue, place⟩
  | .byte b rest shorter =>
      let word (w : List Char) (value : Bool) : Except Fault (Reading Bool s.left) :=
        (readWord w rest).map fun r => (r.map fun _ => value).widen shorter
      if b = byte 't' then word ['r', 'u', 'e'] true
      else if b = byte 'f' then word ['a', 'l', 's', 'e'] false
      else .error (wrongType .flag b rest)

/-! ## Lists -/

variable {α β : Type}

theorem left_lt_of_holding {n : Nat} {rest : Stream} {b : UInt8} (h : rest.left < n)
    (r : Reading α (rest.holding b).left) : r.rest.left < n :=
  Nat.lt_of_lt_of_le r.shorter (left_holding_le_of_lt h)

/-- Reads the elements of a list behind those already read, which stand in reverse, up
to the closing bracket.  The first one has no comma before it. -/
def readElements (element : Reader α) (isFirst : Bool) (done : List α) : Reader (List α) := fun s =>
  match s.nextVisible with
  | .ended place => .error ⟨.endInList, place⟩
  | .byte b rest shorter =>
      if b = byte ']' then .ok ⟨done.reverse, rest, shorter⟩
      else if isFirst then
        match element (rest.holding b) with
        | .error fault => .error fault
        | .ok r =>
            have := left_lt_of_holding shorter r
            (readElements element false (r.value :: done) r.rest).map
              (·.widen (Nat.le_of_lt this))
      else if b = byte ',' then
        match rest.nextVisible with
        | .ended place => .error ⟨.endInValue, place⟩
        | .byte c more shorter' =>
            if c = byte ']' then .error (more.fault .trailingComma)
            else
              match element (more.holding c) with
              | .error fault => .error fault
              | .ok r =>
                  have := Nat.lt_trans (left_lt_of_holding shorter' r) shorter
                  (readElements element false (r.value :: done) r.rest).map
                    (·.widen (Nat.le_of_lt this))
      else .error (rest.fault .expectedListCommaOrEnd)
termination_by s => s.left

/-- Reads a list. -/
def readList (element : Reader α) : Reader (List α) := fun s =>
  match s.nextVisible with
  | .ended place => .error ⟨.endInValue, place⟩
  | .byte b rest shorter =>
      if b = byte '[' then
        (readElements element true [] rest).map (·.widen (left_le_of_lt shorter))
      else .error (wrongType .sequence b rest)

/-! ## Records -/

variable (shape : Shape α β) (readFirst : Reader α) (readSecond : Reader β)

/-- The fault of a record that is written as an array and ends too early. -/
def tooShort (length : Nat) (rest : Stream) : Fault :=
  rest.fault (.data (.wrongLength length shape.name))

/-- Reads the end of a record that is written as an array. -/
def readArrayEnd : Reader Unit := fun s =>
  match s.nextVisible with
  | .ended place => .error ⟨.endInList, place⟩
  | .byte b rest shorter =>
      if b = byte ']' then .ok ⟨(), rest, shorter⟩
      else if b = byte ',' then
        match rest.nextVisible with
        | .ended place => .error ⟨.trailingCharacters, place⟩
        | .byte c more _ =>
            if c = byte ']' then .error (more.fault .trailingComma)
            else .error (more.fault .trailingCharacters)
      else .error (rest.fault .trailingCharacters)

/-- Reads the second value of a record that is written as an array. -/
def readSecondElement : Reader β := fun s =>
  match s.nextVisible with
  | .ended place => .error ⟨.endInList, place⟩
  | .byte b rest shorter =>
      if b = byte ']' then .error (tooShort shape 1 rest)
      else if b = byte ',' then
        match rest.nextVisible with
        | .ended place => .error ⟨.endInValue, place⟩
        | .byte c more shorter' =>
            if c = byte ']' then .error (more.fault .trailingComma)
            else
              (readSecond (more.holding c)).map (·.widen
                (Nat.le_trans (left_holding_le_of_lt shorter') (Nat.le_of_lt shorter)))
      else .error (rest.fault .expectedListCommaOrEnd)

theorem left_lt_of_pair {s rest : Stream} {b : UInt8} (h : rest.left < s.left)
    (first : Reading α (rest.holding b).left) (second : Reading β first.rest.left)
    (last : Reading Unit second.rest.left) : last.rest.left < s.left :=
  Nat.lt_trans last.shorter (Nat.lt_trans second.shorter (left_lt_of_holding h first))

/-- Reads a record that is written as an array, behind its opening bracket. -/
def readPair : Reader (α × β) := fun s =>
  match s.nextVisible with
  | .ended place => .error ⟨.endInList, place⟩
  | .byte b rest shorter =>
      if b = byte ']' then .error (tooShort shape 0 rest)
      else
        match readFirst (rest.holding b) with
        | .error fault => .error fault
        | .ok first =>
            match readSecondElement shape readSecond first.rest with
            | .error fault => .error fault
            | .ok second =>
                match readArrayEnd second.rest with
                | .error fault => .error fault
                | .ok last =>
                    .ok ⟨(first.value, second.value), last.rest,
                      left_lt_of_pair shorter first second last⟩

/-- Finds the key of the next member of an object: the stream behind its opening
quote.  The first member has no comma before it. -/
def findKey (isFirst : Bool) (b : UInt8) (rest : Stream) :
    Except Fault (Reading Unit (rest.left + 1)) :=
  if isFirst then
    if b = byte '"' then .ok ⟨(), rest, left_lt_succ rest⟩
    else .error (rest.fault .keyMustBeString)
  else if b = byte ',' then
    match rest.nextVisible with
    | .ended place => .error ⟨.endInValue, place⟩
    | .byte c more shorter =>
        if c = byte '"' then .ok ⟨(), more, Nat.lt_succ_of_lt shorter⟩
        else if c = byte '}' then .error (more.fault .trailingComma)
        else .error (more.fault .keyMustBeString)
  else .error (rest.fault .expectedObjectCommaOrEnd)

/-- Reads the colon between a key and its value. -/
def readColon : Reader Unit := fun s =>
  match s.nextVisible with
  | .ended place => .error ⟨.endInObject, place⟩
  | .byte b rest shorter =>
      if b = byte ':' then .ok ⟨(), rest, shorter⟩ else .error (rest.fault .expectedColon)

/-- The fault of a field that comes again, found behind its key. -/
def duplicateField (name : String) (s : Stream) : Fault :=
  match s.nextVisible with
  | .ended place => ⟨.data (.duplicateField name), place⟩
  | .byte _ rest _ => rest.fault (.data (.duplicateField name))

/-- Reads the value of a member behind its key. -/
def readMember (value : Reader α) : Reader α := fun s =>
  match readColon s with
  | .error fault => .error fault
  | .ok colon => (value colon.rest).map (·.widen (Nat.le_of_lt colon.shorter))

theorem left_lt_of_member {s rest : Stream} (h : rest.left < s.left)
    (start : Reading Unit (rest.left + 1)) (key : Reading String start.rest.left)
    (r : Reading α key.rest.left) : r.rest.left < s.left :=
  Nat.lt_trans (Nat.lt_trans r.shorter key.shorter) (Nat.lt_of_lt_of_le start.shorter h)

/-- Reads the members of an object up to its closing brace, behind some that may have
given the fields already. -/
def readMembers (isFirst : Bool) (first : Option α) (second : Option β) : Reader (α × β) := fun s =>
  match s.nextVisible with
  | .ended place => .error ⟨.endInObject, place⟩
  | .byte b rest shorter =>
      if b = byte '}' then
        match first, second with
        | some a, some c => .ok ⟨(a, c), rest, shorter⟩
        | none, _ => .error (rest.fault (.data (.missingField shape.first)))
        | _, none => .error (rest.fault (.data (.missingField shape.second)))
      else
        match findKey isFirst b rest with
        | .error fault => .error fault
        | .ok start =>
            match readText start.rest with
            | .error fault => .error fault
            | .ok key =>
                if key.value = shape.first then
                  if first.isSome then .error (duplicateField shape.first key.rest)
                  else
                    match readMember readFirst key.rest with
                    | .error fault => .error fault
                    | .ok r =>
                        have := left_lt_of_member shorter start key r
                        (readMembers false (some r.value) second r.rest).map
                          (·.widen (Nat.le_of_lt this))
                else if key.value = shape.second then
                  if second.isSome then .error (duplicateField shape.second key.rest)
                  else
                    match readMember readSecond key.rest with
                    | .error fault => .error fault
                    | .ok r =>
                        have := left_lt_of_member shorter start key r
                        (readMembers false first (some r.value) r.rest).map
                          (·.widen (Nat.le_of_lt this))
                else
                  match readMember skipValue key.rest with
                  | .error fault => .error fault
                  | .ok r =>
                      have := left_lt_of_member shorter start key r
                      (readMembers false first second r.rest).map (·.widen (Nat.le_of_lt this))
termination_by s => s.left

/-- Reads a record. -/
def readRecord : Reader (α × β) := fun s =>
  match s.nextVisible with
  | .ended place => .error ⟨.endInValue, place⟩
  | .byte b rest shorter =>
      if b = byte '[' then
        (readPair shape readFirst readSecond rest).map (·.widen (left_le_of_lt shorter))
      else if b = byte '{' then
        (readMembers shape readFirst readSecond true none none rest).map
          (·.widen (left_le_of_lt shorter))
      else .error (wrongType (.record shape.name) b rest)

end SentenceGuide.Json.Stream
