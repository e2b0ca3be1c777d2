import SentenceGuide.Json.Skip

/-!
# Typed values in a document

Each place in a grammar document is for one type of value: a text, a flag, a
list of values of one type, or a record of two fields.  A value of another type
is refused as soon as its first byte shows its type.  Only what is needed to
name it is read on.

A record is written as an object or as an array.  An object holds each of the
two fields once, in any order, among any other keys, whose values are skipped.  A
field that comes again is refused at its key, and a field that is missing is
missed at the closing brace.  An array holds exactly the two values, in the
order of the fields.

Whatever is wrong with the fields of a record, its end is tried before the fault
is placed.  So the fault stands behind the closing byte, or before the next byte
that is no blank.
-/

namespace SentenceGuide.Json

/-! ## Refusing a value of another type -/

/-- The fault of a value that is none of its place, whose first byte is `b`. -/
def wrongType (expected : Expected) (b : UInt8) (rest : List UInt8) : Fault :=
  let fault (found : Found) (rest : List UInt8) (sight : Sight) : Fault :=
    ⟨.data (.wrongType found expected), rest, sight⟩
  let word (w : List Char) (found : Found) : Fault :=
    match readWord w rest with
    | .error e => e
    | .ok rest => fault found rest .read
  let number (isNegative : Bool) (bytes : List UInt8) : Fault :=
    match readNumber isNegative bytes with
    | .error e => e
    | .ok (found, rest) => fault found rest .seen
  if b = byte 'n' then word ['u', 'l', 'l'] .null
  else if b = byte 't' then word ['r', 'u', 'e'] (.boolean true)
  else if b = byte 'f' then word ['a', 'l', 's', 'e'] (.boolean false)
  else if b = byte '-' then number true rest
  else if isDigit b then number false (b :: rest)
  else if b = byte '"' then
    match readText rest with
    | .error e => e
    | .ok r => fault (.text r.value) r.rest .read
  else if b = byte '[' then fault .sequence (b :: rest) .seen
  else if b = byte '{' then fault .map (b :: rest) .seen
  else .ahead .expectedValue (b :: rest)

/-! ## Texts and flags -/

/-- Reads a text. -/
def readString : Reader String := fun bytes =>
  match h : skipBlanks bytes with
  | [] => .error (.ahead .endInValue [])
  | b :: rest =>
      if b = byte '"' then
        (readText rest).map (·.widen (Nat.le_of_lt (length_of_skipBlanks h)))
      else .error (wrongType .text b rest)

/-- Reads a flag. -/
def readFlag : Reader Bool := fun bytes =>
  match h : skipBlanks bytes with
  | [] => .error (.ahead .endInValue [])
  | b :: rest =>
      have := length_of_skipBlanks h
      let word (w : List Char) (value : Bool) : Result Bool bytes :=
        match hw : readWord w rest with
        | .error fault => .error fault
        | .ok more => .ok ⟨value, more, Nat.lt_of_le_of_lt (length_of_readWord hw) this⟩
      if b = byte 't' then word ['r', 'u', 'e'] true
      else if b = byte 'f' then word ['a', 'l', 's', 'e'] false
      else .error (wrongType .flag b rest)

/-! ## Lists -/

variable {α β : Type}

/-- Reads the elements of a list behind those already read, which stand in
reverse, up to the closing bracket.  The first one has no comma before it. -/
def readElements (element : Reader α) (bound : Nat) (isFirst : Bool) (done : List α)
    (bytes : List UInt8) (within : bytes.length ≤ bound) :
    Except Fault (Reading (List α) bound) :=
  match h : skipBlanks bytes with
  | [] => .error (.ahead .endInList [])
  | b :: rest =>
      have := length_of_skipBlanks h
      if b = byte ']' then .ok ⟨done.reverse, rest, by omega⟩
      else if isFirst then
        match element (b :: rest) with
        | .error fault => .error fault
        | .ok r =>
            have := r.shorter
            readElements element bound false (r.value :: done) r.rest
              (by simp only [List.length_cons] at *; omega)
      else if b = byte ',' then
        match hc : skipBlanks rest with
        | [] => .error (.ahead .endInValue [])
        | c :: more =>
            have := length_of_skipBlanks hc
            if c = byte ']' then .error (.ahead .trailingComma (c :: more))
            else
              match element (c :: more) with
              | .error fault => .error fault
              | .ok r =>
                  have := r.shorter
                  readElements element bound false (r.value :: done) r.rest
                    (by simp only [List.length_cons] at *; omega)
      else .error (.ahead .expectedListCommaOrEnd (b :: rest))
termination_by bytes.length
decreasing_by all_goals simp only [List.length_cons] at *; omega

/-- Reads a list. -/
def readList (element : Reader α) : Reader (List α) := fun bytes =>
  match h : skipBlanks bytes with
  | [] => .error (.ahead .endInValue [])
  | b :: rest =>
      if b = byte '[' then
        readElements element bytes.length true [] rest (Nat.le_of_lt (length_of_skipBlanks h))
      else .error (wrongType .sequence b rest)

/-! ## Records -/

/-- A record of two fields: its name, the names of the fields, and how their
values are read. -/
structure Shape (α β : Type) where
  /-- The name of the record. -/
  name : String
  /-- The name of the first field. -/
  first : String
  /-- The name of the second field. -/
  second : String
  /-- How the value of the first field is read. -/
  readFirst : Reader α
  /-- How the value of the second field is read. -/
  readSecond : Reader β

/-- The fault of a record that is written as an array and ends too early. -/
def tooShort (shape : Shape α β) (length : Nat) (rest : List UInt8) : Fault :=
  .at (.data (.wrongLength length shape.name)) rest

/-- Reads the end of a record that is written as an array. -/
def readArrayEnd (bytes : List UInt8) : Result Unit bytes :=
  match h : skipBlanks bytes with
  | [] => .error (.ahead .endInList [])
  | b :: rest =>
      if b = byte ']' then .ok ⟨(), rest, length_of_skipBlanks h⟩
      else if b = byte ',' then
        match skipBlanks rest with
        | [] => .error (.ahead .trailingCharacters [])
        | c :: more =>
            if c = byte ']' then .error (.ahead .trailingComma (c :: more))
            else .error (.ahead .trailingCharacters (c :: more))
      else .error (.ahead .trailingCharacters (b :: rest))

/-- Reads the second value of a record that is written as an array. -/
def readSecondElement (shape : Shape α β) : Reader β := fun bytes =>
  match h : skipBlanks bytes with
  | [] => .error (.ahead .endInList [])
  | b :: rest =>
      if b = byte ']' then .error (tooShort shape 1 rest)
      else if b = byte ',' then
        match hc : skipBlanks rest with
        | [] => .error (.ahead .endInValue [])
        | c :: more =>
            if c = byte ']' then .error (.ahead .trailingComma (c :: more))
            else
              (shape.readSecond (c :: more)).map (·.widen (by
                have := length_of_skipBlanks h
                have := length_of_skipBlanks hc
                simp only [List.length_cons]
                omega))
      else .error (.ahead .expectedListCommaOrEnd (b :: rest))

/-- Reads a record that is written as an array, behind its opening bracket. -/
def readPair (shape : Shape α β) : Reader (α × β) := fun bytes =>
  match h : skipBlanks bytes with
  | [] => .error (.ahead .endInList [])
  | b :: rest =>
      if b = byte ']' then .error (tooShort shape 0 rest)
      else
        match shape.readFirst (b :: rest) with
        | .error fault => .error fault
        | .ok first =>
            match readSecondElement shape first.rest with
            | .error fault => .error fault
            | .ok second =>
                match readArrayEnd second.rest with
                | .error fault => .error fault
                | .ok r =>
                    .ok ⟨(first.value, second.value), r.rest, by
                      have := length_of_skipBlanks h
                      have := first.shorter
                      have := second.shorter
                      have := r.shorter
                      simp only [List.length_cons] at *
                      omega⟩

/-- Finds the key of the next member of an object: the bytes behind its opening
quote.  The first member has no comma before it. -/
def findKey (isFirst : Bool) (b : UInt8) (rest : List UInt8) :
    Except Fault (Reading Unit (rest.length + 1)) :=
  if isFirst then
    if b = byte '"' then .ok ⟨(), rest, Nat.lt_succ_self _⟩
    else .error (.ahead .keyMustBeString (b :: rest))
  else if b = byte ',' then
    match h : skipBlanks rest with
    | [] => .error (.ahead .endInValue [])
    | c :: more =>
        if c = byte '"' then
          .ok ⟨(), more, Nat.lt_succ_of_lt (length_of_skipBlanks h)⟩
        else if c = byte '}' then .error (.ahead .trailingComma (c :: more))
        else .error (.ahead .keyMustBeString (c :: more))
  else .error (.ahead .expectedObjectCommaOrEnd (b :: rest))

/-- Reads the colon between a key and its value. -/
def readColon : Reader Unit := fun bytes =>
  match h : skipBlanks bytes with
  | [] => .error (.ahead .endInObject [])
  | b :: rest =>
      if b = byte ':' then .ok ⟨(), rest, length_of_skipBlanks h⟩
      else .error (.ahead .expectedColon (b :: rest))

/-- The fault of a field that comes again, found behind its key. -/
def duplicateField (name : String) (bytes : List UInt8) : Fault :=
  let reason := Reason.data (.duplicateField name)
  match skipBlanks bytes with
  | [] => .at reason []
  | b :: rest => if b = byte '}' then .at reason rest else ⟨reason, b :: rest, .seen⟩

/-- Reads the value of a member behind its key. -/
def readMember {γ : Type} (value : Reader γ) : Reader γ := fun bytes =>
  match readColon bytes with
  | .error fault => .error fault
  | .ok colon => (value colon.rest).map (·.widen (Nat.le_of_lt colon.shorter))

theorem length_of_brace {bytes rest : List UInt8} {b : UInt8} {bound : Nat}
    (h : skipBlanks bytes = b :: rest) (within : bytes.length ≤ bound) : rest.length < bound :=
  Nat.lt_of_lt_of_le (length_of_skipBlanks h) within

theorem length_of_member {γ : Type} {bytes rest : List UInt8} {b : UInt8}
    (h : skipBlanks bytes = b :: rest) (start : Reading Unit (rest.length + 1))
    (key : Reading String start.rest.length) (r : Reading γ key.rest.length) :
    r.rest.length < bytes.length := by
  have := length_of_skipBlanks h
  have := start.shorter
  have := key.shorter
  have := r.shorter
  omega

theorem length_of_member_le {γ : Type} {bytes rest : List UInt8} {b : UInt8} {bound : Nat}
    (h : skipBlanks bytes = b :: rest) (within : bytes.length ≤ bound)
    (start : Reading Unit (rest.length + 1)) (key : Reading String start.rest.length)
    (r : Reading γ key.rest.length) : r.rest.length ≤ bound :=
  Nat.le_trans (Nat.le_of_lt (length_of_member h start key r)) within

/-- Reads the members of an object up to its closing brace, behind some that may
have given the fields already. -/
def readMembers (shape : Shape α β) (bound : Nat) (isFirst : Bool) (first : Option α)
    (second : Option β) (bytes : List UInt8) (within : bytes.length ≤ bound) :
    Except Fault (Reading (α × β) bound) :=
  match h : skipBlanks bytes with
  | [] => .error (.ahead .endInObject [])
  | b :: rest =>
      if b = byte '}' then
        match first, second with
        | some a, some c => .ok ⟨(a, c), rest, length_of_brace h within⟩
        | none, _ => .error (.at (.data (.missingField shape.first)) rest)
        | _, none => .error (.at (.data (.missingField shape.second)) rest)
      else
        match findKey isFirst b rest with
        | .error fault => .error fault
        | .ok start =>
            match readText start.rest with
            | .error fault => .error fault
            | .ok key =>
                if key.value = shape.first then
                  if first.isSome then .error (duplicateField shape.first key.rest)
                  else
                    match readMember shape.readFirst key.rest with
                    | .error fault => .error fault
                    | .ok r =>
                        readMembers shape bound false (some r.value) second r.rest
                          (length_of_member_le h within start key r)
                else if key.value = shape.second then
                  if second.isSome then .error (duplicateField shape.second key.rest)
                  else
                    match readMember shape.readSecond key.rest with
                    | .error fault => .error fault
                    | .ok r =>
                        readMembers shape bound false first (some r.value) r.rest
                          (length_of_member_le h within start key r)
                else
                  match readMember skipValue key.rest with
                  | .error fault => .error fault
                  | .ok r =>
                      readMembers shape bound false first second r.rest
                        (length_of_member_le h within start key r)
termination_by bytes.length
decreasing_by all_goals exact length_of_member h start key r

/-- Reads a record. -/
def readRecord (shape : Shape α β) : Reader (α × β) := fun bytes =>
  match h : skipBlanks bytes with
  | [] => .error (.ahead .endInValue [])
  | b :: rest =>
      if b = byte '[' then
        (readPair shape rest).map (·.widen (Nat.le_of_lt (length_of_skipBlanks h)))
      else if b = byte '{' then
        readMembers shape bytes.length true none none rest
          (Nat.le_of_lt (length_of_skipBlanks h))
      else .error (wrongType (.record shape.name) b rest)

end SentenceGuide.Json
