import SentenceGuide.Cli.Switch
import SentenceGuide.Diagnostic

/-!
# Transcripts

What a run leaves behind: an exit code, lines of output, and messages.  A
message is a diagnostic or a report of something that went wrong.  The
settings of a run leave diagnostics out but never reports.
-/

namespace SentenceGuide.Cli

/-- What a run says beside its output. -/
inductive Message where
  /-- A diagnostic. -/
  | told (diagnostic : Diagnostic)
  /-- Something went wrong. -/
  | reported (text : String)
  deriving DecidableEq, Repr

namespace Message

/-- Whether settings let a message through. -/
def isShown (settings : Settings) : Message → Bool
  | told diagnostic => settings.shows diagnostic.level diagnostic.topic
  | reported _ => true

/-- A message as it is printed. -/
def shown : Message → String
  | told diagnostic => diagnostic.shown
  | reported text => text

end Message

/-- What a run leaves behind. -/
structure Transcript where
  /-- The exit code. -/
  code : Nat
  /-- The lines of its output. -/
  output : List String
  /-- What it says beside. -/
  messages : List Message
  deriving DecidableEq, Repr

namespace Transcript

/-- Lines as a text, each of them ended. -/
def textOf (lines : List String) : String := String.join (lines.map (· ++ "\n"))

/-- The output as a text. -/
def outputText (t : Transcript) : String := textOf t.output

/-- The messages as a text. -/
def messageText (t : Transcript) : String := textOf (t.messages.map Message.shown)

/-- A transcript behind some messages. -/
def behind (messages : List Message) (t : Transcript) : Transcript :=
  ⟨t.code, t.output, messages ++ t.messages⟩

/-- A transcript with only the messages that settings let through. -/
def under (settings : Settings) (t : Transcript) : Transcript :=
  ⟨t.code, t.output, t.messages.filter (Message.isShown settings)⟩

end Transcript

/-! ## Refused command lines -/

/-- How the program is used. -/
def usageLines : List String := ["Usage: scaffold [OPTIONS] <FILE> <COMMAND>"]

/-- What there is to know about the arguments. -/
def helpLines : List String :=
  usageLines ++
    ["",
      "Commands:",
      "  next       List the tokens that may follow the given ones",
      "  check      Exit successfully only if the tokens form a complete sentence",
      "  terminals  List every terminal in the grammar",
      "  compose    Compose random sentences by repeatedly picking a valid next token",
      "  help       Print this message or the help of the given subcommand(s)",
      "",
      "Arguments:",
      "  <FILE>  File containing the grammar",
      "",
      "Options:",
      "  -s, --start <SYMBOL>   Start symbol (default: first in the file)",
      "  -f, --format <FORMAT>  Grammar format (default: from the file extension) " ++
        "[possible values: bnf, json]",
      "      --order <ORDER>    Worklist discipline for `next` and `check` " ++
        "[default: lifo] [possible values: lifo, fifo]",
      "  -v, --verbose...       Print diagnostics (repeat for more)",
      "  -h, --help             Print help",
      "  -V, --version          Print version"]

/-- The program and its version. -/
def versionLine : String := "scaffold 0.1.0"

/-- What a refused command line leaves behind. -/
def Refusal.transcript (refusal : Refusal) : Transcript :=
  match refusal with
  | .help => ⟨refusal.exitCode, helpLines, []⟩
  | .version => ⟨refusal.exitCode, [versionLine], []⟩
  | .usage =>
      ⟨refusal.exitCode, [],
        (usageLines ++ ["", "For more information, try '--help'."]).map .reported⟩

/-! ## Tests -/

example : Transcript.textOf ["a", ""] = "a\n\n" := by decide +kernel

end SentenceGuide.Cli
