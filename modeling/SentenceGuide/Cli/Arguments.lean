import SentenceGuide.Cli.Switch
import SentenceGuide.Loading
import SentenceGuide.Search.Worklist

/-!
# Arguments

A command line has a file with a grammar, a command, and switches before the
command.  Behind the command only its own arguments stand.

* `next` and `check` have the tokens entered so far.
* `terminals` has nothing.
* `compose` has an amount and a limit of tokens.
* `help` has at most the name of one command.

A command is recognised by its name wherever a switch does not wait for a value,
so a file cannot be named like a command.  The file cannot be empty.  A switch
with a value can be given once.
-/

namespace SentenceGuide.Cli

/-- What is to be done with a grammar. -/
inductive Command where
  /-- List what can follow some tokens. -/
  | next (tokens : List String)
  /-- Tell whether some tokens are a sentence. -/
  | check (tokens : List String)
  /-- List the terminals. -/
  | terminals
  /-- Compose sentences of limited length. -/
  | compose (amount limit : Nat)
  deriving DecidableEq, Repr

/-- The most tokens that a sentence of the command may have. -/
def Command.limit : Command → Nat
  | .compose _ limit => limit
  | _ => 0

/-- A command line that is well formed. -/
structure Arguments where
  /-- The file with the grammar. -/
  file : String
  /-- The name to derive sentences from, if it is not the grammar's own. -/
  start : Option String
  /-- The format of the file, if the path does not decide. -/
  format : Option Format
  /-- The order of searches. -/
  order : Order
  /-- How often diagnostics have been asked for, at most 255 times. -/
  verbose : Nat
  /-- The command. -/
  command : Command
  deriving DecidableEq, Repr

/-- The format in which the file is read. -/
def Arguments.usedFormat (a : Arguments) : Format := a.format.getD (.ofPath a.file)

/-! ## Values -/

/-- The format with a name. -/
def formatNamed (name : String) : Option Format :=
  if name = "bnf" then some .bnf else if name = "json" then some .json else none

/-- The order with a name. -/
def orderNamed (name : String) : Option Order :=
  if name = "lifo" then some .lifo else if name = "fifo" then some .fifo else none

/-- Gives a value to a field that has none yet, if the value is good. -/
def setOnce {α σ : Type} (read : String → Option α) (field : σ → Option α)
    (put : σ → α → σ) (text : String) (values : σ) : Except Refusal σ :=
  match field values, read text with
  | none, some value => .ok (put values value)
  | _, _ => .error .usage

/-- The flag that asks for help. -/
def helpFlag {σ : Type} : Switch σ := .flag fun _ => .error .help

/-! ## Arguments of the commands -/

/-- Reads tokens. -/
def readTokens : List String → Except Refusal (List String)
  | [] => .ok []
  | argument :: arguments =>
      match look argument with
      | .escape => .ok arguments
      | .long text => .error (if text = ['h', 'e', 'l', 'p'] then .help else .usage)
      | .short text => .error (if text.head? = some 'h' then .help else .usage)
      | .plain => do
          let tokens ← readTokens arguments
          pure (argument :: tokens)

/-- Reads no argument. -/
def readNothing (arguments : List String) : Except Refusal Unit := do
  let tokens ← readTokens (arguments.take 1)
  match tokens, arguments with
  | [], [] | [], [_] => pure ()
  | _, _ => .error .usage

/-- What `compose` has been given. -/
structure ComposeValues where
  /-- The amount. -/
  amount : Option Nat
  /-- The limit of tokens. -/
  maxTokens : Option Nat

/-- The switch that sets the amount, which has 32 bits. -/
def amountSwitch : Switch ComposeValues :=
  .valued (setOnce (integerBelow (Nat.pow 2 32)) (·.amount) fun v n => ⟨some n, v.maxTokens⟩)

/-- The switch that sets the limit, which has 64 bits. -/
def maxTokensSwitch : Switch ComposeValues :=
  .valued (setOnce (naturalBelow (Nat.pow 2 64)) (·.maxTokens) fun v n => ⟨v.amount, some n⟩)

/-- The switches of `compose` with long names. -/
def composeLong (name : List Char) : Option (Switch ComposeValues) :=
  match String.ofList name with
  | "amount" => some amountSwitch
  | "max-tokens" => some maxTokensSwitch
  | "help" => some helpFlag
  | _ => none

/-- The switches of `compose` with one letter. -/
def composeShort : Char → Option (Switch ComposeValues)
  | 'n' => some amountSwitch
  | 'h' => some helpFlag
  | _ => none

/-- Reads what `compose` is given. -/
def readCompose (p : Progress ComposeValues) : List String → Except Refusal ComposeValues
  | [] => p.settle
  | argument :: arguments =>
      match p.waiting, look argument with
      | .due set, .plain => readCompose ⟨p.values, .given (set argument)⟩ arguments
      | .due _, _ => .error .usage
      | _, .plain => .error .usage
      | _, .escape => if arguments.isEmpty then p.settle else .error .usage
      | _, .long text => do readCompose (← p.readLong composeLong text) arguments
      | _, .short text => do readCompose (← p.readShort composeShort text) arguments

/-- Reads the arguments of a command. -/
def readCommand (name : String) : Option (List String → Except Refusal Command) :=
  match name with
  | "next" => some fun arguments => do pure (.next (← readTokens arguments))
  | "check" => some fun arguments => do pure (.check (← readTokens arguments))
  | "terminals" => some fun arguments => do
      readNothing arguments
      pure .terminals
  | "compose" => some fun arguments => do
      let values ← readCompose (.of ⟨none, none⟩) arguments
      pure (.compose (values.amount.getD 1) (values.maxTokens.getD 100))
  | _ => none

/-- Reads what help is asked for. -/
def readHelp : List String → Refusal
  | [] => .help
  | [name] => if name = "help" ∨ (readCommand name).isSome then .help else .usage
  | _ => .usage

/-! ## The whole line -/

/-- What stands before the command. -/
structure Values where
  /-- The file. -/
  file : Option String
  /-- The name to derive sentences from. -/
  start : Option String
  /-- The format. -/
  format : Option Format
  /-- The order. -/
  order : Option Order
  /-- How often diagnostics have been asked for. -/
  verbose : Nat

namespace Values

/-- Nothing has been given. -/
def none : Values := ⟨.none, .none, .none, .none, 0⟩

/-- The switch that sets the start name. -/
def startSwitch : Switch Values :=
  .valued (setOnce some (·.start) fun v s => ⟨v.file, some s, v.format, v.order, v.verbose⟩)

/-- The switch that sets the format. -/
def formatSwitch : Switch Values :=
  .valued (setOnce formatNamed (·.format) fun v f => ⟨v.file, v.start, some f, v.order, v.verbose⟩)

/-- The switch that sets the order. -/
def orderSwitch : Switch Values :=
  .valued (setOnce orderNamed (·.order) fun v o => ⟨v.file, v.start, v.format, some o, v.verbose⟩)

/-- The flag that asks for more diagnostics. -/
def verboseFlag : Switch Values :=
  .flag fun v => .ok ⟨v.file, v.start, v.format, v.order, min 255 (v.verbose + 1)⟩

/-- The flag that asks for the version. -/
def versionFlag : Switch Values := .flag fun _ => .error .version

/-- The switches with long names. -/
def long (name : List Char) : Option (Switch Values) :=
  match String.ofList name with
  | "start" => some startSwitch
  | "format" => some formatSwitch
  | "order" => some orderSwitch
  | "verbose" => some verboseFlag
  | "help" => some helpFlag
  | "version" => some versionFlag
  | _ => Option.none

/-- The switches with one letter. -/
def short : Char → Option (Switch Values)
  | 's' => some startSwitch
  | 'f' => some formatSwitch
  | 'v' => some verboseFlag
  | 'h' => some helpFlag
  | 'V' => some versionFlag
  | _ => Option.none

/-- The values with the file, which is judged later. -/
def withFile (v : Values) (file : String) : Progress Values :=
  ⟨⟨some file, v.start, v.format, v.order, v.verbose⟩,
    .given fun v => if file.isEmpty then .error .usage else .ok v⟩

/-- The arguments that values and a command make, if there is a file. -/
def arguments (v : Values) (command : Command) : Except Refusal Arguments :=
  match v.file with
  | some file => .ok ⟨file, v.start, v.format, v.order.getD .lifo, v.verbose, command⟩
  | Option.none => .error .usage

end Values

/-- Reads a command line behind what has been read of it.  What waits when the
command comes is judged after the command. -/
def readArguments (p : Progress Values) : List String → Except Refusal Arguments
  | [] => .error .usage
  | argument :: rest =>
      match p.waiting with
      | .due set =>
          if look argument = .plain then
            readArguments ⟨p.values, .given (set argument)⟩ rest
          else .error .usage
      | _ =>
          if argument = "help" then .error (readHelp rest)
          else
            match readCommand argument with
            | some read => do
                let command ← read rest
                let values ← p.settle
                values.arguments command
            | none =>
                match look argument with
                | .escape => .error .usage
                | .long text => do readArguments (← p.readLong Values.long text) rest
                | .short text => do readArguments (← p.readShort Values.short text) rest
                | .plain =>
                    if p.values.file.isSome then .error .usage
                    else do
                      let values ← p.settle
                      readArguments (values.withFile argument) rest

/-- Reads a command line. -/
def parse (arguments : List String) : Except Refusal Arguments :=
  readArguments (.of .none) arguments

/-! ## Tests -/

example : (parse ["-vs", "A", "g", "next", "--", "-x"]).toOption =
    some ⟨"g", some "A", none, .lifo, 1, .next ["-x"]⟩ := by decide +kernel

example : (parse ["g", "compose", "-n=3"]).toOption =
    some ⟨"g", none, none, .lifo, 0, .compose 3 100⟩ := by decide +kernel

example : (parse ["g", "--", "next"]).toOption = none := by decide +kernel

end SentenceGuide.Cli
