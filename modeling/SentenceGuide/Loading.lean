import SentenceGuide.Bnf.Document
import SentenceGuide.Json.Stream.Document

/-!
# Loading a grammar

A grammar is read from a rule text or from a document.  A file has one of the
two formats.  Unless it is given, the extension of the path decides: a path with
the extension `json`, in upper or lower case, is a document, and any other is a
rule text.

Reading a document ends at the first fault.  Reading a rule text does not, and so
it may not end at all.
-/

namespace SentenceGuide

/-- How a grammar is written in a file. -/
inductive Format where
  /-- A rule text. -/
  | bnf
  /-- A document. -/
  | json
  deriving DecidableEq, Repr

/-- The format of a path. -/
def Format.ofPath (path : String) : Format :=
  match Path.extension path with
  | some text => if text.map Char.toLower = ['j', 's', 'o', 'n'] then json else bnf
  | none => bnf

/-- Reads a document at hand.  The file only shows up in the places of faults. -/
def Json.parse (text : String) (file : String) : Loaded :=
  match readDocumentText text with
  | .ok g => .ok g
  | .error fault => .error [⟨⟨file, fault.line⟩, .document fault⟩]

/-- Reads a document from a file, byte by byte. -/
def Json.load (source : Source) (file : String) : Loaded :=
  match source with
  | .missing fault => .error [⟨.ofFile file, .unreadable fault⟩]
  | .unreadable fault => .error [⟨.ofFile file, .document (.unreadable fault)⟩]
  | .bytes content =>
      match readStream content with
      | .ok g => .ok g
      | .error fault => .error [⟨⟨file, fault.line⟩, .document fault⟩]

/-- Reads a file that has a given format, if reading it ends. -/
def Format.load (format : Format) (source : Source) (file : String) : Option Loaded :=
  match format with
  | .bnf => Bnf.load source file
  | .json => some (Json.load source file)

/-! ## Tests -/

example : Format.ofPath "dir/x.JSON" = .json ∧ Format.ofPath "dir.json/x" = .bnf := by
  decide +kernel

end SentenceGuide
