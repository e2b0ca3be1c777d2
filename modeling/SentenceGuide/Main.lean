import SentenceGuide.Cli.Console
import SentenceGuide.Seed

/-!
# The program

Takes the command line from the system, reads the file that it names, draws a
seed for the random words, and prints what the run leaves behind.
-/

namespace SentenceGuide

/-- What the system says about a file, as a fault. -/
def ReadFault.ofSystem : IO.Error → ReadFault
  | .noFileOrDirectory .. => noSuchFile
  | .permissionDenied .. => permissionDenied
  | .inappropriateType _ 20 _ => notDirectory
  | .inappropriateType .. => directory
  | e => ⟨.other, some e.toString⟩

/-- Reads a file of the system.  A directory opens and fails later. -/
def readSource (path : String) : IO Source := do
  try
    let content ← IO.FS.readBinFile path
    pure (.bytes content.toList)
  catch e =>
    let fault := ReadFault.ofSystem e
    pure (if fault = .directory then .unreadable fault else .missing fault)

/-- How many configurations a search may take, which no search outlives. -/
def endless : Nat := Nat.pow 2 62

/-- Runs a command line on the files of the system. -/
def runOnSystem (arguments : List String) : IO (Option Cli.Transcript) :=
  match Cli.parse arguments with
  | .error refusal => pure (some refusal.transcript)
  | .ok a => do
      let source ← readSource a.file
      let seed := Seed.ofBytes (← IO.getRandomBytes 8).toList
      pure (Cli.runOnConsole endless a source (Seed.script seed a.command.limit))

end SentenceGuide

/-- Prints what a run leaves behind, and ends with its exit code. -/
def main (arguments : List String) : IO UInt32 := do
  match ← SentenceGuide.runOnSystem arguments with
  | none => throw (IO.userError "the run did not end")
  | some t =>
      IO.print t.outputText
      IO.eprint t.messageText
      pure t.code.toUInt32
