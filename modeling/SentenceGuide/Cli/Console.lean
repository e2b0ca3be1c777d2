import SentenceGuide.Cli.Run

/-!
# Running on a console

A run writes as it goes: lines of output, diagnostics and reports.  Whether a
diagnostic is written is decided where it comes up, by the settings of the console.
A search tells of each production that it expands, before it puts in what follows,
and of its end.  A report is always written.

The search, the composer and the commands are those of the library, with a console
handed through them.
-/

namespace SentenceGuide.Cli

/-- What a run writes to.  What has been written stands in reverse. -/
structure Console where
  /-- Which diagnostics are written. -/
  settings : Settings
  /-- The lines of output. -/
  output : List String
  /-- What is written beside. -/
  messages : List Message
  deriving DecidableEq, Repr

namespace Console

/-- A console to which nothing has been written. -/
def opened (settings : Settings) : Console := ⟨settings, [], []⟩

/-- Prints a line of output. -/
def print (console : Console) (line : String) : Console :=
  ⟨console.settings, line :: console.output, console.messages⟩

/-- Tells a diagnostic, if the settings show it. -/
def tell (console : Console) (d : Diagnostic) : Console :=
  if console.settings.shows d.level d.topic then
    ⟨console.settings, console.output, .told d :: console.messages⟩
  else console

/-- Reports that something went wrong. -/
def report (console : Console) (text : String) : Console :=
  ⟨console.settings, console.output, .reported text :: console.messages⟩

/-- What a run leaves behind that ends with a code. -/
def transcript (console : Console) (code : Nat) : Transcript :=
  ⟨code, console.output.reverse, console.messages.reverse⟩

/-! ## Searching -/

section Search

variable {ω : Type} [Worklist ω Configuration]

/-- Puts in the configurations in which the name on top has been replaced, and tells
of each production before. -/
def putExpansions (entered : List String) (c : Configuration) (name : String)
    (rest : List Pending) (productions : List Production) (held : ω) (console : Console) :
    ω × Console :=
  match productions with
  | [] => (held, console)
  | p :: productions =>
      let console := console.tell (.expanded name p.rhs (c.consumed entered))
      putExpansions entered c name rest productions
        (Worklist.put (.expand rest c.unmatched p) held) console

/-- Puts in the configurations that follow one. -/
def putNext (g : Grammar) (entered : List String) (c : Configuration) (held : ω)
    (console : Console) : ω × Console :=
  match c.pending with
  | .symbol (.nonterminal name) :: rest =>
      putExpansions entered c name rest (g.productionsFor name) held console
  | _ => (Worklist.putAll (c.next g) held, console)

/-- Takes configurations until the worklist has drained, and lists them behind those
already taken, which stand in reverse. -/
def drain (g : Grammar) (entered : List String) (held : ω) (taken : List Configuration)
    (console : Console) : Nat → Option (List Configuration × Console)
  | 0 =>
      match Worklist.take held with
      | none => some (taken.reverse, console)
      | some _ => none
  | budget + 1 =>
      match Worklist.take held with
      | none => some (taken.reverse, console)
      | some (c, held) =>
          let (held, console) := putNext g entered c held console
          drain g entered held (c :: taken) console budget

/-- Searches from a seed with an empty worklist of a given type, and tells of the
end. -/
def exploreIn (ω : Type) [Worklist ω Configuration] (console : Console) (budget : Nat)
    (g : Grammar) (entered : List String) (seed : List Pending) :
    Option (Exploration × Console) :=
  let start : ω := Worklist.put (.initial seed entered) Worklist.empty
  match drain g entered start [] console budget with
  | none => none
  | some (taken, console) =>
      let e : Exploration := ⟨g, entered, taken⟩
      some (e, console.tell (.explored e.takes e.countFound))

/-- Searches from a seed with the worklist of an order. -/
def explore (console : Console) (budget : Nat) (g : Grammar) (entered : List String)
    (seed : List Pending) : Order → Option (Exploration × Console)
  | .lifo => exploreIn (Stack Configuration) console budget g entered seed
  | .fifo => exploreIn (Queue Configuration) console budget g entered seed

/-- Searches for what can follow some tokens and for the end of a sentence, and tells
what came of it. -/
def seek (console : Console) (budget : Nat) (g : Grammar) (order : Order)
    (entered : List String) : Option (Exploration × Console) :=
  match console.explore budget g entered [.symbol g.startSymbol, .sentinel] order with
  | none => none
  | some (e, console) =>
      some (e, console.tell (.completed entered.length e.tokens.length e.isSentence))

end Search

/-! ## Carrying out commands -/

/-- Composes a sentence behind some tokens, which has room for some more. -/
def composeFrom (console : Console) (g : Grammar) (budget limit : Nat) (tokens : List String)
    (words : Words) (room : Nat) : Option (Except ComposeFault (List String) × Console) :=
  match console.seek budget g .lifo tokens with
  | none => none
  | some (e, console) =>
      let c := e.completion
      if c.isDeadEnd then some (.error (.deadEnd tokens), console)
      else
        let (pick, words) := words.pick c.choices
        match c.candidates[pick]? with
        | none => some (.ok tokens, console)
        | some token =>
            match room with
            | 0 => some (.error (.tokenLimit limit), console)
            | room + 1 =>
                composeFrom (console.tell (.picked token c.choices)) g budget limit
                  (tokens ++ [token]) words room

/-- Composes `left` sentences from the script at a place on. -/
def printSentences (console : Console) (budget : Nat) (g : Grammar) (limit : Nat)
    (file : String) (scripts : Nat → List UInt64) (place left : Nat) : Option Transcript :=
  match left with
  | 0 => some (console.transcript 0)
  | left + 1 =>
      match console.composeFrom g budget limit [] ⟨scripts place, 0⟩ limit with
      | none => none
      | some (.ok tokens, console) =>
          printSentences (console.print (render tokens)) budget g limit file scripts (place + 1)
            left
      | some (.error fault, console) =>
          let text := Located.shown ComposeFault.message ⟨.ofFile file, fault⟩
          some ((console.report text).transcript 1)

/-- Carries out a command on a grammar. -/
def carryOut (console : Console) (budget : Nat) (g : Grammar) (order : Order) (file : String)
    (scripts : Nat → List UInt64) : Command → Option Transcript
  | .next tokens =>
      match console.seek budget g order tokens with
      | none => none
      | some (e, console) => some (((listing e.completion).foldl print console).transcript 0)
  | .check tokens =>
      match console.seek budget g order tokens with
      | none => none
      | some (e, console) => some (console.transcript (if e.isSentence then 0 else 1))
  | .terminals => some ((g.terminals.foldl print console).transcript 0)
  | .compose amount limit => console.printSentences budget g limit file scripts 0 amount

end Console

/-- Goes on with a run whose file has been read, on a console with the settings that
it asks for. -/
def runLoadedOnConsole (budget : Nat) (a : Arguments) (loaded : Loaded)
    (scripts : Nat → List UInt64) : Option Transcript :=
  let console :=
    (loadDiagnostics a.usedFormat a.file loaded).foldl Console.tell (.opened a.settings)
  match loaded with
  | .error faults =>
      let console := faults.foldl (fun console fault => console.report fault.report) console
      some (console.transcript 1)
  | .ok g => console.carryOut budget (chooseStart g a.start) a.order a.file scripts a.command

/-- Runs a command line whose file has been opened, on a console with the settings
that it asks for. -/
def runOnConsole (budget : Nat) (a : Arguments) (source : Source)
    (scripts : Nat → List UInt64) : Option Transcript :=
  match a.usedFormat.load source a.file with
  | none => none
  | some loaded => runLoadedOnConsole budget a loaded scripts

/-! ## Tests -/

/-- A file of one rule, for the tests. -/
def oneWord : Source := .bytes (Text.Utf8.encode "S = \"go\"".toList)

example : (runOnConsole 10 (ofCommand 2 (.next [])) oneWord fun _ => []) =
    some ⟨0, ["go"],
      [.told (.loaded .bnf "g" 1 "S"), .told (.explored 2 1), .told (.completed 0 1 false)]⟩ := by
  decide +kernel

example : (runOnConsole 10 (ofCommand 0 (.compose 1 0)) oneWord fun _ => []) =
    some ⟨1, [], [reportOf "g" (.tokenLimit 0)]⟩ := by decide +kernel

end SentenceGuide.Cli
