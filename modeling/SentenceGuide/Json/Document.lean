import SentenceGuide.Grammar.Basic
import SentenceGuide.Json.Record
import SentenceGuide.Source

/-!
# Grammar documents

A grammar is exchanged as a record of a start name and a list of productions.  A
production is a record of a name and a list of symbols, and a symbol is a
record of a text and a flag that says whether it is a terminal.  Nothing but
blanks may stand behind the document.

A document is read whole from a text or byte by byte from a file.  The two ways
give the same grammar or meet the same fault.  Only the place of a fault may
differ.
-/

namespace SentenceGuide.Json

/-- Reads another value from the same bytes. -/
def mapReader {α β : Type} (f : α → β) (read : Reader α) : Reader β := fun bytes =>
  (read bytes).map (·.map f)

/-- How a symbol is written. -/
def symbolShape : Shape String Bool :=
  ⟨"RawSymbol", "text", "isTerminal", readString, readFlag⟩

/-- Reads a symbol. -/
def readSymbol : Reader Symbol :=
  mapReader (fun (text, isTerminal) => Symbol.ofText text isTerminal) (readRecord symbolShape)

/-- How a production is written. -/
def productionShape : Shape String (List Symbol) :=
  ⟨"Production", "lhs", "rhs", readString, readList readSymbol⟩

/-- Reads a production. -/
def readProduction : Reader Production :=
  mapReader (fun (lhs, rhs) => ⟨lhs, rhs⟩) (readRecord productionShape)

/-- How a grammar is written. -/
def grammarShape : Shape String (List Production) :=
  ⟨"RawGrammar", "start", "productions", readString, readList readProduction⟩

/-- Reads a grammar. -/
def readGrammar : Reader Grammar :=
  mapReader (fun (start, productions) => Grammar.ofProductions start productions)
    (readRecord grammarShape)

/-- Reads a document that holds a grammar and nothing else. -/
def readDocument (bytes : List UInt8) : Except Fault Grammar :=
  match readGrammar bytes with
  | .error fault => .error fault
  | .ok r =>
      match skipBlanks r.rest with
      | [] => .ok r.value
      | rest => .error (.ahead .trailingCharacters rest)

/-! ## Faults with their places -/

/-- Why a document gave no grammar. -/
inductive DocumentFault where
  /-- The document could not be read. -/
  | unreadable (fault : ReadFault)
  /-- The document is at fault at a place. -/
  | malformed (reason : Reason) (position : Position)
  deriving DecidableEq, Repr

namespace DocumentFault

/-- The sort of a fault. -/
def category : DocumentFault → Category
  | unreadable _ => .unreadable
  | malformed reason _ => reason.category

/-- The line of a fault, or zero if it has no place. -/
def line : DocumentFault → Nat
  | unreadable _ => 0
  | malformed _ position => position.line

/-- The fault in words, without its place. -/
def cause : DocumentFault → String
  | unreadable fault => fault.message
  | malformed reason _ => reason.message

/-- The fault in words, with its place if it has one. -/
def message : DocumentFault → String
  | unreadable fault => fault.message
  | malformed reason position =>
      let cause := reason.message
      s!"{cause} at line {position.line} column {position.column}"

end DocumentFault

/-- Reads the bytes of a document in one of the two ways. -/
def readBytes (access : Access) (bytes : List UInt8) : Except DocumentFault Grammar :=
  match readDocument bytes with
  | .ok g => .ok g
  | .error fault => .error (.malformed fault.reason (fault.position access bytes))

/-- Reads a document from a text. -/
def readDocumentText (text : String) : Except DocumentFault Grammar :=
  readBytes .whole (Text.Utf8.encode text.toList)

/-! ## Tests -/

/-- The spelling of an ASCII text, for the tests. -/
def ascii (text : List Char) : List UInt8 := text.map byte

example : (readDocument (ascii ['[', '"', 'S', '"', ',', '[', ']', ']'])).toOption =
    some (.ofProductions "S" []) := by decide +kernel

example : (readBytes .whole (ascii ['\x7b', '\x7d'])).toOption = none := by decide +kernel

end SentenceGuide.Json
