import SentenceGuide.Json.Document
import SentenceGuide.Json.Stream.Record

/-!
# Grammar documents that arrive byte by byte

A grammar is read off a stream as a record, as it is from a document at hand.  Nothing but
blanks may stand behind it.
-/

namespace SentenceGuide.Json

namespace Stream

/-- Reads another value from the same stream. -/
def mapReader {α β : Type} (f : α → β) (read : Reader α) : Reader β := fun s =>
  (read s).map (·.map f)

/-- Reads a symbol. -/
def readSymbol : Reader Symbol :=
  mapReader (fun (text, isTerminal) => Symbol.ofText text isTerminal)
    (readRecord symbolShape readString readFlag)

/-- Reads a production. -/
def readProduction : Reader Production :=
  mapReader (fun (lhs, rhs) => ⟨lhs, rhs⟩)
    (readRecord productionShape readString (readList readSymbol))

/-- Reads a grammar. -/
def readGrammar : Reader Grammar :=
  mapReader (fun (start, productions) => Grammar.ofProductions start productions)
    (readRecord grammarShape readString (readList readProduction))

/-- Reads a document that holds a grammar and nothing else. -/
def readDocument (s : Stream) : Except Fault Grammar :=
  match readGrammar s with
  | .error fault => .error fault
  | .ok r =>
      match r.rest.nextVisible with
      | .ended _ => .ok r.value
      | .byte _ rest _ => .error (rest.fault .trailingCharacters)

end Stream

/-- Reads a document byte by byte. -/
def readStream (document : List UInt8) : Except DocumentFault Grammar :=
  match Stream.readDocument (.start document) with
  | .ok g => .ok g
  | .error fault => .error (.malformed fault.reason fault.place)

end SentenceGuide.Json
