import Mathlib.Order.Monotone.Basic
import SentenceGuide.Cli.Console
import SentenceGuide.Proofs.Draining

/-!
# What the settings change

A console looks at its settings each time that a diagnostic comes up.  All else that a
run does is the same under all settings: what is written to a console is never read
again.  So a run on a console is a run that lists every message, of which the settings
let some through (`runOnConsole_eq_run`).

Of two runs that ask for different levels, the one that asks for less leaves behind what
the other one does, but for the diagnostics above its level (`runOnConsole_eq_upTo`).

This says little of runs that never end.  A run that composes nothing ends if its search
drains, unless it reads a rule text that can be opened and not be read
(`exists_runOnConsole`).
-/

namespace SentenceGuide.Cli

namespace Console

variable {console : Console} {output output' : List String} {messages messages' : List Message}

/-! ## What has been written -/

/-- A console to which some lines have been printed, and of some messages those that its
settings let through. -/
def after (output : List String) (messages : List Message) (console : Console) : Console :=
  ⟨console.settings, output.reverse ++ console.output,
    (messages.filter (Message.isShown console.settings)).reverse ++ console.messages⟩

@[simp] theorem after_after :
    (console.after output messages).after output' messages' =
      console.after (output ++ output') (messages ++ messages') := by
  simp [after]

theorem print_eq_after (line : String) : console.print line = console.after [line] [] := rfl

theorem report_eq_after (text : String) : console.report text = console.after [] [.reported text] :=
  rfl

theorem tell_eq_after (d : Diagnostic) : console.tell d = console.after [] [.told d] := by
  cases h : console.settings.shows d.level d.topic <;>
    simp [tell, after, Message.isShown, h]

theorem foldl_print (lines : List String) :
    lines.foldl print console = console.after lines [] := by
  induction lines generalizing console with
  | nil => rfl
  | cons line lines ih => rw [List.foldl_cons, ih, print_eq_after, after_after]; rfl

/-- If each item of a list gives one message, all of them give one after the other. -/
theorem foldl_eq_after {α : Type} {say : Console → α → Console} {message : α → Message}
    (h : ∀ console item, say console item = console.after [] [message item]) (items : List α) :
    items.foldl say console = console.after [] (items.map message) := by
  induction items generalizing console with
  | nil => rfl
  | cons item items ih => rw [List.foldl_cons, ih, h, after_after]; rfl

theorem foldl_tell (ds : List Diagnostic) :
    ds.foldl tell console = console.after [] (ds.map .told) :=
  foldl_eq_after (fun _ d => tell_eq_after d) ds

theorem foldl_report (faults : List LocatedFault) :
    faults.foldl (fun console fault => console.report fault.report) console =
      console.after [] (faults.map fun fault => .reported fault.report) :=
  foldl_eq_after (fun _ fault => report_eq_after fault.report) faults

/-- What a run leaves behind on a new console is what its settings let through. -/
theorem transcript_after_opened (settings : Settings) (t : Transcript) :
    ((opened settings).after t.output t.messages).transcript t.code = t.under settings := by
  simp [after, opened, transcript, Transcript.under]

/-! ## Searches -/

section Search

variable {ω : Type} [Worklist ω Configuration] {g : Grammar} {entered : List String}

/-- What a search tells that has taken some configurations. -/
def toldAt (g : Grammar) (entered : List String) (taken : List Configuration) : List Message :=
  (taken.flatMap (Exploration.expansions ⟨g, entered, []⟩)).map .told

theorem toldAt_taken (e : Exploration) :
    toldAt e.grammar e.entered e.taken = (e.taken.flatMap e.expansions).map .told := rfl

theorem toldAt_reverse_cons (c : Configuration) (taken : List Configuration) :
    toldAt g entered (c :: taken).reverse =
      toldAt g entered taken.reverse ++ toldAt g entered [c] := by
  simp [toldAt]

theorem putExpansions_eq (c : Configuration) (name : String) (rest : List Pending)
    (productions : List Production) (held : ω) :
    putExpansions entered c name rest productions held console =
      (Worklist.putAll (productions.map (Configuration.expand rest c.unmatched)) held,
        console.after []
          (productions.map fun p => .told (.expanded name p.rhs (c.consumed entered)))) := by
  induction productions generalizing held console with
  | nil => rfl
  | cons p productions ih => rw [putExpansions, ih, tell_eq_after, after_after]; rfl

/-- A step puts in what follows, and tells of the expansions. -/
theorem putNext_eq (c : Configuration) (held : ω) :
    putNext g entered c held console =
      (Worklist.putAll (c.next g) held, console.after [] (toldAt g entered [c])) := by
  obtain ⟨pending, unmatched⟩ := c
  match pending with
  | .symbol (.nonterminal name) :: rest =>
      rw [putNext]
      simp only [putExpansions_eq]
      simp [toldAt, Exploration.expansions, Configuration.next, Function.comp_def]
  | .symbol (.terminal text) :: rest => rfl
  | .sentinel :: rest => rfl
  | [] => rfl

/-- A search on a console takes what a search takes, and has told of each configuration
that it took. -/
theorem drain_eq (budget : Nat) (held : ω) (taken : List Configuration) :
    drain g entered held taken (console.after [] (toldAt g entered taken.reverse)) budget =
      (SentenceGuide.drain g held taken budget).map fun all =>
        (all, console.after [] (toldAt g entered all)) := by
  induction budget generalizing held taken with
  | zero =>
      rw [drain, SentenceGuide.drain]
      cases Worklist.take held <;> rfl
  | succ budget ih =>
      rw [drain, SentenceGuide.drain]
      cases Worklist.take held with
      | none => rfl
      | some step =>
          obtain ⟨c, held⟩ := step
          simp only [putNext_eq]
          rw [after_after, List.append_nil, ← toldAt_reverse_cons, ih]

theorem exploreIn_eq (ω : Type) [Worklist ω Configuration] (budget : Nat) (seed : List Pending) :
    exploreIn ω console budget g entered seed =
      (SentenceGuide.exploreIn ω budget g entered seed).map fun e =>
        (e, console.after []
          (toldAt g entered e.taken ++ [.told (.explored e.takes e.countFound)])) := by
  let start : ω := Worklist.put (.initial seed entered) Worklist.empty
  have hdrain : drain g entered start [] console budget =
      (SentenceGuide.drain g start [] budget).map fun all =>
        (all, console.after [] (toldAt g entered all)) :=
    drain_eq budget start []
  rw [exploreIn, SentenceGuide.exploreIn, hdrain]
  cases SentenceGuide.drain g start [] budget with
  | none => rfl
  | some taken => simp [tell_eq_after]

theorem explore_eq (budget : Nat) (seed : List Pending) (order : Order) :
    console.explore budget g entered seed order =
      (SentenceGuide.explore budget g entered seed order).map fun e =>
        (e, console.after []
          (toldAt g entered e.taken ++ [.told (.explored e.takes e.countFound)])) := by
  cases order with
  | lifo => exact exploreIn_eq (Stack Configuration) budget seed
  | fifo => exact exploreIn_eq (Queue Configuration) budget seed

/-- A search on a console gives what a search gives, and has told its diagnostics. -/
theorem seek_eq (budget : Nat) (order : Order) :
    console.seek budget g order entered =
      (g.seek budget order entered).map fun e =>
        (e, console.after [] (e.diagnostics.map .told)) := by
  rw [seek, explore_eq, Grammar.seek]
  cases h : SentenceGuide.explore budget g entered [.symbol g.startSymbol, .sentinel] order with
  | none => rfl
  | some e =>
      obtain ⟨rfl, rfl, -⟩ := run_of_explore h
      simp [tell_eq_after, toldAt_taken, Exploration.diagnostics]

end Search

/-! ## Commands -/

variable {budget : Nat} {g : Grammar}

/-- Composing on a console gives what composing gives, and has told its diagnostics. -/
theorem composeFrom_eq (limit : Nat) (tokens : List String) (words : Words) (room : Nat) :
    console.composeFrom g budget limit tokens words room =
      (SentenceGuide.composeFrom g budget limit tokens words room).map fun c =>
        (c.outcome, console.after [] (c.diagnostics.map .told)) := by
  fun_induction SentenceGuide.composeFrom g budget limit tokens words room
      generalizing console with
  | case1 room tokens words hseek =>
      rw [composeFrom, seek_eq, hseek]
      rfl
  | case2 room tokens words e hseek completion =>
      rename_i hdead
      subst completion
      rw [composeFrom, seek_eq, hseek]
      simp only [Option.map_some, hdead, if_true]
  | case3 room tokens words e hseek completion =>
      rename_i hdead pick words' hpick hstop
      subst completion
      rw [composeFrom, seek_eq, hseek]
      simp only [Option.map_some, hdead, Bool.false_eq_true, if_false, hpick, hstop]
  | case4 tokens words e hseek completion =>
      rename_i hdead pick words' hpick token ht
      subst completion
      rw [composeFrom, seek_eq, hseek]
      simp only [Option.map_some, hdead, Bool.false_eq_true, if_false, hpick, ht]
  | case5 tokens words e hseek completion =>
      rename_i hdead pick words' hpick token ht room ih
      subst completion
      rw [composeFrom, seek_eq, hseek]
      simp only [Option.map_some, hdead, Bool.false_eq_true, if_false, hpick, ht, tell_eq_after,
        after_after, ih, Option.map_map]
      simp [Function.comp_def, Composition.behind]

/-- Sentences are printed behind what has been written to the console. -/
theorem printSentences_eq (limit : Nat) (file : String) (scripts : Nat → List UInt64)
    (place left : Nat) (printed : List String) (said : List Message) :
    (console.after printed.reverse said.reverse).printSentences budget g limit file scripts place
        left =
      (SentenceGuide.Cli.printSentences budget g limit file scripts place printed said left).map
        fun t => (console.after t.output t.messages).transcript t.code := by
  induction left generalizing place printed said with
  | zero => rfl
  | succ left ih =>
      rw [printSentences, SentenceGuide.Cli.printSentences, composeFrom_eq, Grammar.compose]
      cases SentenceGuide.composeFrom g budget limit [] ⟨scripts place, 0⟩ limit with
      | none => rfl
      | some c =>
          simp only [Option.map_some]
          cases c.outcome with
          | ok tokens => simp [print_eq_after, ← ih]
          | error fault => simp [report_eq_after, reportOf]

/-- A command on a console does what the command does, behind what has been written. -/
theorem carryOut_eq (order : Order) (file : String) (scripts : Nat → List UInt64)
    (command : Command) :
    console.carryOut budget g order file scripts command =
      (SentenceGuide.Cli.carryOut budget g order file scripts command).map fun t =>
        (console.after t.output t.messages).transcript t.code := by
  cases command with
  | next tokens =>
      rw [carryOut, SentenceGuide.Cli.carryOut, seek_eq]
      cases g.seek budget order tokens with
      | none => rfl
      | some e => simp [foldl_print]
  | check tokens =>
      rw [carryOut, SentenceGuide.Cli.carryOut, seek_eq]
      cases g.seek budget order tokens with
      | none => rfl
      | some e => rfl
  | terminals => simp [carryOut, SentenceGuide.Cli.carryOut, foldl_print]
  | compose amount limit => exact printSentences_eq limit file scripts 0 amount [] []

end Console

theorem runLoadedOnConsole_eq (budget : Nat) (a : Arguments) (loaded : Loaded)
    (scripts : Nat → List UInt64) :
    runLoadedOnConsole budget a loaded scripts =
      (runLoaded budget a loaded scripts).map (.under a.settings) := by
  cases loaded with
  | error faults =>
      simp only [runLoadedOnConsole, runLoaded, Console.foldl_tell, Console.foldl_report,
        Console.after_after]
      exact congrArg some (Console.transcript_after_opened a.settings ⟨1, [], _⟩)
  | ok g =>
      simp only [runLoadedOnConsole, runLoaded, Console.foldl_tell, Console.carryOut_eq,
        Console.after_after, Option.map_map]
      congr 1
      funext t
      exact Console.transcript_after_opened a.settings (t.behind _)

/-- A run that writes as it goes leaves behind what a run does whose messages are all
listed and then filtered. -/
theorem runOnConsole_eq_run (budget : Nat) (a : Arguments) (source : Source)
    (scripts : Nat → List UInt64) :
    runOnConsole budget a source scripts = run budget a source scripts := by
  rw [runOnConsole, run, runAll]
  cases a.usedFormat.load source a.file with
  | none => rfl
  | some loaded => exact runLoadedOnConsole_eq budget a loaded scripts

/-! ## Two levels -/

/-- Whether a message is a report or a diagnostic that is not above a level. -/
def Message.isUpTo (level : Level) : Message → Bool
  | .told d => d.level.rank ≤ level.rank
  | .reported _ => true

/-- A transcript without the diagnostics above a level. -/
def Transcript.upTo (level : Level) (t : Transcript) : Transcript :=
  ⟨t.code, t.output, t.messages.filter (Message.isUpTo level)⟩

theorem monotone_rank_ofVerbosity : Monotone fun v => (Level.ofVerbosity v).rank :=
  monotone_nat_of_le_succ fun
    | 0 => by decide
    | 1 => by decide
    | 2 => by decide
    | _ + 3 => Nat.le_refl _

/-- Without chosen topics, the level alone decides what settings let through. -/
theorem isShown_eq_isUpTo (level : Level) : Message.isShown ⟨level, []⟩ = Message.isUpTo level := by
  funext message
  cases message <;> simp [Message.isShown, Message.isUpTo, Settings.shows]

/-- What a level lets through is what it lets through of what a higher level does. -/
theorem under_eq_upTo {level level' : Level} (h : level.rank ≤ level'.rank) (t : Transcript) :
    t.under ⟨level, []⟩ = (t.under ⟨level', []⟩).upTo level := by
  have hfilter : ∀ message : Message,
      message.isUpTo level = (message.isUpTo level && message.isUpTo level') := by
    intro message
    cases message with
    | told d =>
        rw [Bool.eq_iff_iff]
        simp only [Message.isUpTo, Bool.and_eq_true, decide_eq_true_eq]
        omega
    | reported text => rfl
  rw [Transcript.under, Transcript.under, Transcript.upTo, isShown_eq_isUpTo, isShown_eq_isUpTo,
    List.filter_filter]
  exact congrArg _ (List.filter_congr fun message _ => hfilter message)

/-- A run that asks for less leaves behind what one that asks for more does, but for the
diagnostics above its level.  This holds of every command and every budget. -/
theorem runOnConsole_eq_upTo {v v' : Nat} (h : v ≤ v') (budget : Nat) (a : Arguments)
    (source : Source) (scripts : Nat → List UInt64) :
    runOnConsole budget { a with verbose := v } source scripts =
      (runOnConsole budget { a with verbose := v' } source scripts).map
        (.upTo (.ofVerbosity v)) := by
  have hall : runAll budget { a with verbose := v } source scripts =
      runAll budget { a with verbose := v' } source scripts := rfl
  rw [runOnConsole_eq_run, runOnConsole_eq_run, run, run, hall, Option.map_map]
  congr 1
  funext t
  exact under_eq_upTo (monotone_rank_ofVerbosity h) t

/-! ## Runs that end -/

/-- The tokens that a command searches with. -/
def Command.entered? : Command → Option (List String)
  | .next tokens => some tokens
  | .check tokens => some tokens
  | .terminals => none
  | .compose _ _ => none

/-- If the file gives a grammar and the command searches with some tokens, the search
drains. -/
def Arguments.SearchDrains (a : Arguments) (source : Source) : Prop :=
  ∀ g tokens, a.usedFormat.load source a.file = some (.ok g) → a.command.entered? = some tokens →
    Drains (chooseStart g a.start) tokens [.symbol (chooseStart g a.start).startSymbol, .sentinel]
      a.order

variable {a : Arguments} {source : Source} {g : Grammar} {tokens : List String}

theorem exists_seek_of_drains {order : Order}
    (h : Drains g tokens [.symbol g.startSymbol, .sentinel] order) :
    ∃ e least, ∀ budget, least ≤ budget → g.seek budget order tokens = some e := by
  obtain ⟨least, h⟩ := h
  obtain ⟨e, he⟩ := Option.isSome_iff_exists.mp h
  exact ⟨e, least, fun budget hle => explore_mono he hle⟩

/-- A command that composes nothing ends, if its search drains. -/
theorem exists_carryOut {order : Order} {command : Command}
    (hcommand : ∀ amount limit, command ≠ .compose amount limit)
    (hdrains : ∀ tokens, command.entered? = some tokens →
      Drains g tokens [.symbol g.startSymbol, .sentinel] order)
    (file : String) (scripts : Nat → List UInt64) :
    ∃ t least, ∀ budget, least ≤ budget →
      carryOut budget g order file scripts command = some t := by
  cases command with
  | next tokens =>
      obtain ⟨e, least, he⟩ := exists_seek_of_drains (hdrains tokens rfl)
      exact ⟨_, least, fun budget hle => by rw [carryOut, he budget hle]; rfl⟩
  | check tokens =>
      obtain ⟨e, least, he⟩ := exists_seek_of_drains (hdrains tokens rfl)
      exact ⟨_, least, fun budget hle => by rw [carryOut, he budget hle]; rfl⟩
  | terminals => exact ⟨_, 0, fun _ _ => rfl⟩
  | compose amount limit => exact absurd rfl (hcommand amount limit)

/-- Reading a file ends, but for a rule text that can be opened and not be read. -/
theorem exists_load {format : Format}
    (hsource : format = .bnf → ∀ fault, source ≠ .unreadable fault) (file : String) :
    ∃ loaded, format.load source file = some loaded := by
  cases format with
  | json => exact ⟨_, rfl⟩
  | bnf =>
      cases source with
      | missing fault => exact ⟨_, rfl⟩
      | unreadable fault => exact absurd rfl (hsource rfl fault)
      | bytes content => exact ⟨_, rfl⟩

theorem exists_runLoaded (loaded : Loaded)
    (hcommand : ∀ amount limit, a.command ≠ .compose amount limit)
    (hdrains : ∀ g tokens, loaded = .ok g → a.command.entered? = some tokens →
      Drains (chooseStart g a.start) tokens
        [.symbol (chooseStart g a.start).startSymbol, .sentinel] a.order)
    (scripts : Nat → List UInt64) :
    ∃ t least, ∀ budget, least ≤ budget → runLoaded budget a loaded scripts = some t := by
  cases loaded with
  | error faults => exact ⟨_, 0, fun _ _ => rfl⟩
  | ok g =>
      obtain ⟨t, least, ht⟩ := exists_carryOut hcommand (hdrains g · rfl) a.file scripts
      refine ⟨t.behind ((loadDiagnostics a.usedFormat a.file (.ok g)).map .told), least, ?_⟩
      intro budget hle
      simp only [runLoaded, ht budget hle, Option.map_some]

/-- A run that composes nothing ends if reading its file does and its search drains. -/
theorem exists_runOnConsole
    (hsource : a.usedFormat = .bnf → ∀ fault, source ≠ .unreadable fault)
    (hcommand : ∀ amount limit, a.command ≠ .compose amount limit)
    (hdrains : a.SearchDrains source) (scripts : Nat → List UInt64) :
    ∃ t least, ∀ budget, least ≤ budget → runOnConsole budget a source scripts = some t := by
  obtain ⟨loaded, hload⟩ := exists_load hsource a.file
  obtain ⟨t, least, ht⟩ := exists_runLoaded loaded hcommand
    (fun g tokens hok => hdrains g tokens (hok ▸ hload)) scripts
  refine ⟨t.under a.settings, least, fun budget hle => ?_⟩
  simp only [runOnConsole_eq_run, run, runAll, hload, ht budget hle, Option.map_some]

/-- Two runs of a command whose search drains, of which one asks for more diagnostics, both
end, unless they read a rule text that can be opened and not be read.  They end with the same
code and the same output.  The messages of the one that asks for less are those of the other
one without the diagnostics above its level. -/
theorem diagnostics_change_no_results {v v' : Nat} (h : v ≤ v')
    (hsource : a.usedFormat = .bnf → ∀ fault, source ≠ .unreadable fault)
    (hcommand : ∀ amount limit, a.command ≠ .compose amount limit)
    (hdrains : a.SearchDrains source) (scripts : Nat → List UInt64) :
    ∃ t t' least, (∀ budget, least ≤ budget →
        runOnConsole budget { a with verbose := v } source scripts = some t ∧
        runOnConsole budget { a with verbose := v' } source scripts = some t') ∧
      t.code = t'.code ∧ t.output = t'.output ∧
      t.messages = t'.messages.filter (Message.isUpTo (.ofVerbosity v)) := by
  obtain ⟨t', least, ht'⟩ :=
    exists_runOnConsole (a := { a with verbose := v' }) hsource hcommand hdrains scripts
  refine ⟨t'.upTo (.ofVerbosity v), t', least, ?_, rfl, rfl, rfl⟩
  intro budget hle
  rw [runOnConsole_eq_upTo h, ht' budget hle]
  exact ⟨rfl, rfl⟩

/-- A file of two rules. -/
def goNorth : Source := .bytes (Text.Utf8.encode "S = \"go\" D\nD = \"north\"\n".toList)

/-- The tokens that can follow `go` are asked for with the flag given once and three
times. -/
theorem diagnostics_change_no_results_goNorth :
    1 ≤ 3 ∧
      ((ofCommand 0 (.next ["go"])).usedFormat = .bnf →
        ∀ fault, goNorth ≠ .unreadable fault) ∧
      (∀ amount limit, (ofCommand 0 (.next ["go"])).command ≠ .compose amount limit) ∧
      (ofCommand 0 (.next ["go"])).SearchDrains goNorth ∧
      ∃ t t' least, (∀ budget, least ≤ budget →
          runOnConsole budget (ofCommand 1 (.next ["go"])) goNorth (fun _ => []) = some t ∧
          runOnConsole budget (ofCommand 3 (.next ["go"])) goNorth (fun _ => []) = some t') ∧
        t.code = t'.code ∧ t.output = t'.output ∧
        t.messages = t'.messages.filter (Message.isUpTo (.ofVerbosity 1)) := by
  have hsource : (ofCommand 0 (.next ["go"])).usedFormat = .bnf →
      ∀ fault, goNorth ≠ .unreadable fault := nofun
  have hcommand : ∀ amount limit, (ofCommand 0 (.next ["go"])).command ≠ .compose amount limit :=
    nofun
  have hload : (ofCommand 0 (.next ["go"])).usedFormat.load goNorth "g" =
      some (.ok (.ofProductions "S"
        [⟨"S", [.terminal "go", .nonterminal "D"]⟩, ⟨"D", [.terminal "north"]⟩])) := by
    decide +kernel
  have hdrains : (ofCommand 0 (.next ["go"])).SearchDrains goNorth := by
    intro g tokens hg htokens
    cases hload.symm.trans hg
    cases htokens
    exact ⟨4, by decide +kernel⟩
  exact ⟨by decide, hsource, hcommand, hdrains,
    diagnostics_change_no_results (by decide) hsource hcommand hdrains fun _ => []⟩

end SentenceGuide.Cli
