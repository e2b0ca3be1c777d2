import SentenceGuide.Cli.Arguments
import SentenceGuide.Cli.Transcript
import SentenceGuide.Composer

/-!
# Running a command line

A run loads the grammar of the file, chooses the start name, and carries out the
command.  If the grammar is at fault, every fault is reported and the run fails.
A run leaves nothing behind if it does not end, be it in reading the file or in a
search.

* `next` prints the candidates, and a last line if the tokens are a sentence.
* `check` prints nothing.  It fails unless the tokens are a sentence.
* `terminals` prints the terminals.
* `compose` prints one sentence for each of its scripts of random words.  It
  stops at the first fault, which is reported, and fails.

The diagnostics of the whole run are listed whatever the settings, and the
settings filter them at the end.  `runOnConsole` decides of each diagnostic where
it comes up instead.
-/

namespace SentenceGuide.Cli

/-- The line that says that the tokens are a sentence. -/
def completeMark : String := "(complete)"

/-- The lines that show what can follow some tokens. -/
def listing (c : Completion) : List String :=
  c.candidates ++ if c.isComplete then [completeMark] else []

/-- A fault of composing as it is reported. -/
def reportOf (file : String) (fault : ComposeFault) : Message :=
  .reported (Located.shown ComposeFault.message ⟨.ofFile file, fault⟩)

/-- Composes `left` sentences from the script at a place on.  What has been
printed and said stands in reverse. -/
def printSentences (budget : Nat) (g : Grammar) (limit : Nat) (file : String)
    (scripts : Nat → List UInt64) (place : Nat) (output : List String)
    (messages : List Message) (left : Nat) : Option Transcript :=
  match left with
  | 0 => some ⟨0, output.reverse, messages.reverse⟩
  | left + 1 =>
      match g.compose budget limit ⟨scripts place, 0⟩ with
      | none => none
      | some c =>
          let messages := c.diagnostics.foldl (fun messages d => .told d :: messages) messages
          match c.outcome with
          | .ok tokens =>
              printSentences budget g limit file scripts (place + 1) (render tokens :: output)
                messages left
          | .error fault => some ⟨1, output.reverse, (reportOf file fault :: messages).reverse⟩

/-- Carries out a command on a grammar. -/
def carryOut (budget : Nat) (g : Grammar) (order : Order) (file : String)
    (scripts : Nat → List UInt64) : Command → Option Transcript
  | .next tokens => do
      let e ← g.seek budget order tokens
      pure ⟨0, listing e.completion, e.diagnostics.map .told⟩
  | .check tokens => do
      let e ← g.seek budget order tokens
      pure ⟨if e.isSentence then 0 else 1, [], e.diagnostics.map .told⟩
  | .terminals => some ⟨0, g.terminals, []⟩
  | .compose amount limit => printSentences budget g limit file scripts 0 [] [] amount

/-- The grammar with the start name that has been chosen, if one has. -/
def chooseStart (g : Grammar) : Option String → Grammar
  | some name => g.withStart name
  | none => g

/-- Goes on with a run whose file has been read, and lists every message. -/
def runLoaded (budget : Nat) (a : Arguments) (loaded : Loaded) (scripts : Nat → List UInt64) :
    Option Transcript :=
  let told := (loadDiagnostics a.usedFormat a.file loaded).map .told
  match loaded with
  | .error faults => some ⟨1, [], told ++ faults.map fun fault => .reported fault.report⟩
  | .ok g =>
      (carryOut budget (chooseStart g a.start) a.order a.file scripts a.command).map
        (.behind told)

/-- Runs a command line whose file has been opened, and lists every message. -/
def runAll (budget : Nat) (a : Arguments) (source : Source) (scripts : Nat → List UInt64) :
    Option Transcript :=
  match a.usedFormat.load source a.file with
  | none => none
  | some loaded => runLoaded budget a loaded scripts

/-- The settings that a command line asks for. -/
def Arguments.settings (a : Arguments) : Settings := ⟨.ofVerbosity a.verbose, []⟩

/-- Runs a command line whose file has been opened. -/
def run (budget : Nat) (a : Arguments) (source : Source) (scripts : Nat → List UInt64) :
    Option Transcript :=
  (runAll budget a source scripts).map (.under a.settings)

/-- Answers a command line, given what paths hold. -/
def answer (budget : Nat) (arguments : List String) (sources : String → Source)
    (scripts : Nat → List UInt64) : Option Transcript :=
  match parse arguments with
  | .ok a => run budget a (sources a.file) scripts
  | .error refusal => some refusal.transcript

/-! ## Tests -/

/-- A command line on a grammar file, for the tests. -/
def ofCommand (verbose : Nat) (command : Command) : Arguments :=
  ⟨"g", none, none, .lifo, verbose, command⟩

example : (run 10 (ofCommand 0 (.next [])) (.bytes [0x53, 0x3D]) fun _ => []) =
    some ⟨0, ["(complete)"], []⟩ := by decide +kernel

example : (run 10 (ofCommand 0 (.check [])) (.bytes []) fun _ => []) =
    some ⟨1, [], []⟩ := by decide +kernel

example : (run 10 (ofCommand 0 .terminals) (.unreadable .directory) fun _ => []) = none := by
  decide +kernel

end SentenceGuide.Cli
