import SentenceGuide.Bnf.Rule
import SentenceGuide.Json.Document
import SentenceGuide.Located

/-!
# What is wrong with a grammar

A grammar may be at fault by a rule, by a file that cannot be read, or by a
document that is no grammar.  Faults are compared by their kinds: two unreadable
files agree if the kinds of their faults do, two malformed documents always
agree, and two rules agree if they are at fault in the same way.
-/

namespace SentenceGuide

/-- What can be wrong with a grammar. -/
inductive GrammarFault where
  /-- A rule is at fault. -/
  | rule (fault : Bnf.RuleFault)
  /-- A file or a line of it cannot be read. -/
  | unreadable (fault : ReadFault)
  /-- A document holds no grammar. -/
  | document (fault : Json.DocumentFault)
  deriving DecidableEq, Repr

namespace GrammarFault

/-- The fault in words. -/
def message : GrammarFault → String
  | rule fault => fault.message
  | unreadable fault => "Could not read grammar: " ++ fault.message
  | document fault => "Malformed JSON grammar: " ++ fault.message

/-- The fault in words, without the place in a document. -/
def cause : GrammarFault → String
  | document fault => "Malformed JSON grammar: " ++ fault.cause
  | fault => fault.message

/-- Whether two faults are of the same kind. -/
def same : GrammarFault → GrammarFault → Bool
  | rule a, rule b => a == b
  | unreadable a, unreadable b => a.kind == b.kind
  | document _, document _ => true
  | _, _ => false

end GrammarFault

/-- A fault of a grammar and its place. -/
abbrev LocatedFault := Located GrammarFault

/-- Whether two faults are of the same kind and at the same place. -/
def LocatedFault.same (a b : LocatedFault) : Bool :=
  a.location.same b.location && a.fault.same b.fault

/-- A fault as it is reported. -/
def LocatedFault.report (e : LocatedFault) : String := Located.shown GrammarFault.message e

/-- What reading a grammar gives: the grammar, or every fault in it. -/
abbrev Loaded := Except (List LocatedFault) Grammar

end SentenceGuide
