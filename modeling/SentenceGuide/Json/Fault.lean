import SentenceGuide.Number.Shortest
import SentenceGuide.Text.Quoted

/-!
# Faults of a JSON document

A document is at fault by its syntax, by ending early, or by holding data of
the wrong shape.  A fault records how much of the document had been read, as the
bytes that were left, and how the next of them figures in it.

* *read*: the fault is in what has been read.
* *seen*: the next byte had been looked at but is not to blame.
* *blamed*: the next byte is what is wrong.

That is enough to say where a fault is, for both ways of reading.  A reader
that holds the whole document counts the bytes it has read, and the next one if
that is to blame.  A reader of a stream has taken in every byte that it has looked at, and
counts it too.  So the two may differ by a line after a number, which ends only
where the next byte shows it, and at a newline in a text that is skipped.
-/

namespace SentenceGuide.Json

/-! ## Causes -/

/-- What stands where another type was wanted. -/
inductive Found where
  | null
  | boolean (value : Bool)
  | natural (value : Nat)
  /-- A number below zero, given by its size. -/
  | negative (size : Nat)
  /-- A number that is no integer, or too large for one. -/
  | real (isNegative : Bool) (size : Number.Binary64)
  | text (value : String)
  | sequence
  | map
  deriving DecidableEq, Repr

/-- What stands there, in words. -/
def Found.shown : Found → String
  | null => "null"
  | boolean value => s!"boolean `{value}`"
  | natural value => s!"integer `{value}`"
  | negative size => s!"integer `-{size}`"
  | real isNegative size =>
      let value := Number.shownSigned isNegative size
      s!"floating point `{value}`"
  | text value => "string " ++ Text.quote value
  | sequence => "sequence"
  | map => "map"

/-- What a place in a document is for. -/
inductive Expected where
  | text
  | flag
  | sequence
  /-- A record of a given name. -/
  | record (name : String)
  deriving DecidableEq, Repr

/-- What the place is for, in words. -/
def Expected.shown : Expected → String
  | text => "a string"
  | flag => "a boolean"
  | sequence => "a sequence"
  | record name => s!"struct {name}"

/-- Data of the wrong shape. -/
inductive DataFault where
  /-- A value of one type stands where another was wanted. -/
  | wrongType (found : Found) (expected : Expected)
  /-- A record written as an array has too few elements. -/
  | wrongLength (length : Nat) (record : String)
  /-- A record has no such field. -/
  | missingField (name : String)
  /-- A record has such a field twice. -/
  | duplicateField (name : String)
  deriving DecidableEq, Repr

/-- The fault in words. -/
def DataFault.message : DataFault → String
  | wrongType found expected =>
      let found := found.shown
      let expected := expected.shown
      s!"invalid type: {found}, expected {expected}"
  | wrongLength length record =>
      s!"invalid length {length}, expected struct {record} with 2 elements"
  | missingField name => s!"missing field `{name}`"
  | duplicateField name => s!"duplicate field `{name}`"

/-- What is wrong with a document. -/
inductive Reason where
  | endInList
  | endInObject
  | endInString
  | endInValue
  | expectedColon
  | expectedListCommaOrEnd
  | expectedObjectCommaOrEnd
  | expectedWord
  | expectedValue
  | invalidEscape
  | invalidNumber
  | numberOutOfRange
  | invalidCodePoint
  | controlCharacter
  | keyMustBeString
  | loneSurrogate
  | endOfHexEscape
  | trailingComma
  | trailingCharacters
  | data (fault : DataFault)
  deriving DecidableEq, Repr

/-- What is wrong, in words. -/
def Reason.message : Reason → String
  | endInList => "EOF while parsing a list"
  | endInObject => "EOF while parsing an object"
  | endInString => "EOF while parsing a string"
  | endInValue => "EOF while parsing a value"
  | expectedColon => "expected `:`"
  | expectedListCommaOrEnd => "expected `,` or `]`"
  | expectedObjectCommaOrEnd => "expected `,` or `\x7d`"
  | expectedWord => "expected ident"
  | expectedValue => "expected value"
  | invalidEscape => "invalid escape"
  | invalidNumber => "invalid number"
  | numberOutOfRange => "number out of range"
  | invalidCodePoint => "invalid unicode code point"
  | controlCharacter => "control character (\\u0000-\\u001F) found while parsing a string"
  | keyMustBeString => "key must be a string"
  | loneSurrogate => "lone leading surrogate in hex escape"
  | endOfHexEscape => "unexpected end of hex escape"
  | trailingComma => "trailing comma"
  | trailingCharacters => "trailing characters"
  | data fault => fault.message

/-- The four sorts of faults. -/
inductive Category where
  /-- The document could not be read to its end. -/
  | unreadable
  /-- The document is not JSON. -/
  | notJson
  /-- The document is JSON of another shape. -/
  | data
  /-- The document ends early. -/
  | ending
  deriving DecidableEq, Repr

/-- The sort of a fault. -/
def Reason.category : Reason → Category
  | endInList | endInObject | endInString | endInValue => .ending
  | data _ => .data
  | _ => .notJson

/-! ## Places -/

/-- How the next byte figures in a fault. -/
inductive Sight where
  | read
  | seen
  | blamed
  deriving DecidableEq, Repr

/-- A cause, the bytes that were left, and how the first of them figures. -/
structure Fault where
  /-- What is wrong. -/
  reason : Reason
  /-- The bytes that had not been read. -/
  rest : List UInt8
  /-- How the first of them figures. -/
  sight : Sight
  deriving DecidableEq, Repr

/-- A fault in what has been read. -/
def Fault.at (reason : Reason) (rest : List UInt8) : Fault := ⟨reason, rest, .read⟩

/-- A fault for which the next byte is to blame. -/
def Fault.ahead (reason : Reason) (rest : List UInt8) : Fault := ⟨reason, rest, .blamed⟩

/-- The two ways of reading. -/
inductive Access where
  /-- The whole document is at hand. -/
  | whole
  /-- The document arrives byte by byte. -/
  | stream
  deriving DecidableEq, Repr

/-- A line, from one, and how many bytes of it have been read. -/
structure Position where
  /-- The line. -/
  line : Nat
  /-- The bytes of it. -/
  column : Nat
  deriving DecidableEq, Repr

/-- Where a reader stands that has read some bytes. -/
def Position.after (bytes : List UInt8) : Position :=
  ⟨bytes.count 10 + 1, (bytes.reverse.takeWhile (· != 10)).length⟩

/-- How many bytes beyond those read count for a fault's place. -/
def Sight.extra : Access → Sight → Nat
  | _, read => 0
  | .whole, seen => 0
  | .stream, seen => 1
  | _, blamed => 1

/-- Where a fault of a document is. -/
def Fault.position (access : Access) (document : List UInt8) (fault : Fault) : Position :=
  .after (document.take (document.length - fault.rest.length + fault.sight.extra access))

/-! ## Tests -/

example : Position.after [0x7B, 10, 0x20] = ⟨2, 1⟩ := by decide

example : (Fault.mk .endInValue [] .blamed).position .whole [] = ⟨1, 0⟩ := by decide

example : (Fault.mk (.data (.wrongType (.natural 3) .text)) [10] .seen).position .stream [0x33, 10]
    = ⟨2, 0⟩ := by decide

end SentenceGuide.Json
