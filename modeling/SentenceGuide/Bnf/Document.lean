import SentenceGuide.Bnf.LogicalLine
import SentenceGuide.GrammarFault
import SentenceGuide.Text.Lines
import SentenceGuide.Text.Utf8

/-!
# Rule texts

A rule text has one rule on each logical line that is not blank and no comment.
Every rule gives one production for each of its alternatives, in the order
written, and a name that has several rules keeps all of them.  The start name is
the name of the first rule.

If any line is at fault there is no grammar, and every line at fault is
reported, in order, at the number of the line it starts on.  A line of a file
that does not spell a text is reported at the file as a whole.  The other lines
of the file are read as if it were not there, but keep their numbers.

Reading goes on behind a line that could not be read, whatever the reason.  So a
path that opens but cannot be read has a faulty line after the other, and reading
it never ends.
-/

namespace SentenceGuide.Bnf

/-- The grammar of some rules. -/
def grammarOfRules (rules : List Rule) : Grammar :=
  .ofProductions ((rules.head?.map (·.name)).getD "") (rules.flatMap (·.productions))

/-- The rule on a logical line of a file, or what is wrong with the line. -/
def readLine (file : String) : NumberedLine → Except LocatedFault Rule
  | (_, .error fault) => .error ⟨.ofFile file, .unreadable fault⟩
  | (number, .ok text) =>
      match Rule.ofLine text with
      | .ok rule => .ok rule
      | .error fault => .error ⟨⟨file, number⟩, .rule fault⟩

/-- The fault of an outcome, if it is one. -/
def faultOf {ε α : Type} : Except ε α → Option ε
  | .error fault => some fault
  | .ok _ => none

/-- The grammar of some outcomes, or all of their faults. -/
def collect (outcomes : List (Except LocatedFault Rule)) : Loaded :=
  match outcomes.filterMap faultOf with
  | [] => .ok (grammarOfRules (outcomes.filterMap Except.toOption))
  | faults => .error faults

theorem collect_of_no_fault {outcomes : List (Except LocatedFault Rule)}
    (h : outcomes.filterMap faultOf = []) :
    collect outcomes = .ok (grammarOfRules (outcomes.filterMap Except.toOption)) := by
  rw [collect, h]

theorem collect_of_faults {outcomes : List (Except LocatedFault Rule)}
    (h : outcomes.filterMap faultOf ≠ []) :
    collect outcomes = .error (outcomes.filterMap faultOf) := by
  rw [collect]
  split
  · next hnil => exact absurd hnil h
  · rfl

/-- Reads the lines of a file. -/
def readLines (file : String) (lines : List (Except ReadFault (List Char))) : Loaded :=
  collect (((joinLines none (numberFrom 1 lines)).filter isRuleLine).map (readLine file))

/-- Reads a rule text at hand.  The file only shows up in the places of faults. -/
def parse (text : String) (file : String) : Loaded :=
  readLines file ((Text.lines text.toList).map .ok)

/-- A line of a file as a text, if it spells one. -/
def decodeLine (line : List UInt8) : Except ReadFault (List Char) :=
  match Text.Utf8.decode line with
  | some text => .ok text
  | none => .error .notUtf8

/-- Reads the bytes of a file. -/
def parseBytes (bytes : List UInt8) (file : String) : Loaded :=
  readLines file ((Text.byteLines bytes).map decodeLine)

/-- Reads a file, if reading it ends. -/
def load (source : Source) (file : String) : Option Loaded :=
  match source with
  | .missing fault => some (.error [⟨.ofFile file, .unreadable fault⟩])
  | .unreadable _ => none
  | .bytes content => some (parseBytes content file)

/-! ## Tests -/

example : (parse "S=\"a\"|\n; no rule\n\nS=D\n" "f").toOption =
    some (.ofProductions "S"
      [⟨"S", [.terminal "a"]⟩, ⟨"S", []⟩, ⟨"S", [.nonterminal "D"]⟩]) := by decide +kernel

end SentenceGuide.Bnf
