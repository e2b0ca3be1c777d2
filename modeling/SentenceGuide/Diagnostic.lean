import SentenceGuide.Completion
import SentenceGuide.Loading

/-!
# Diagnostics

What a run tells about its work, beside its results.  A diagnostic has a level
and a topic.  Settings decide which diagnostics are shown: those at or below the
level of the settings whose topic contains one of the chosen topics.  Without
chosen topics, every topic is shown.

Diagnostics are data.  What a search or a composition tells is read off what it did,
so it can be listed as a whole and filtered by the settings afterwards.
-/

namespace SentenceGuide

/-- How much a diagnostic matters, the most important first. -/
inductive Level where
  | none
  | error
  | warn
  | info
  | debug
  | trace
  deriving DecidableEq, Repr

namespace Level

/-- The place of a level in the order. -/
def rank : Level → Nat
  | none => 0
  | error => 1
  | warn => 2
  | info => 3
  | debug => 4
  | trace => 5

/-- The level as it is shown. -/
def shown : Level → String
  | none => "NONE"
  | error => "ERROR"
  | warn => "WARN"
  | info => "INFO"
  | debug => "DEBUG"
  | trace => "TRACE"

/-- The level that a user asks for by repeating a flag.  Errors are always
shown. -/
def ofVerbosity : Nat → Level
  | 0 => error
  | 1 => info
  | 2 => debug
  | _ => trace

end Level

/-- Whether a text stands somewhere in another. -/
def standsIn (part : List Char) : List Char → Bool
  | [] => part.isEmpty
  | c :: cs => part.isPrefixOf (c :: cs) || standsIn part cs

/-- Which diagnostics are shown. -/
structure Settings where
  /-- The last level that is shown. -/
  level : Level
  /-- Parts of topics, one of which must stand in a topic for it to be shown. -/
  topics : List String
  deriving DecidableEq, Repr

namespace Settings

/-- Nothing but level `NONE` is shown. -/
def silent : Settings := ⟨.none, []⟩

/-- Whether a level and a topic are shown. -/
def shows (s : Settings) (level : Level) (topic : String) : Bool :=
  level.rank ≤ s.level.rank &&
    (s.topics.isEmpty || s.topics.any fun part => standsIn part.toList topic.toList)

end Settings

/-- What a run tells about its work. -/
inductive Diagnostic where
  /-- A grammar has been loaded. -/
  | loaded (format : Format) (file : String) (productions : Nat) (start : String)
  /-- A name has been expanded, with some of the tokens matched. -/
  | expanded (name : String) (rhs : List Symbol) (consumed : Nat)
  /-- A search has drained. -/
  | explored (takes found : Nat)
  /-- What can follow some tokens is known. -/
  | completed (entered candidates : Nat) (isComplete : Bool)
  /-- A token has been picked. -/
  | picked (token : String) (choices : Nat)
  deriving DecidableEq, Repr

namespace Diagnostic

/-- The level of a diagnostic. -/
def level : Diagnostic → Level
  | loaded .. => .info
  | expanded .. => .trace
  | explored .. => .debug
  | completed .. => .info
  | picked .. => .debug

/-- The topic of a diagnostic. -/
def topic : Diagnostic → String
  | loaded .bnf .. => "parser"
  | loaded .json .. => "parser.json"
  | expanded .. => "search"
  | explored .. => "search"
  | completed .. => "search.completion"
  | picked .. => "composer"

/-- A diagnostic in words. -/
def text : Diagnostic → String
  | loaded _ file productions start => s!"{file}: {productions} productions, start `{start}`"
  | expanded name rhs consumed =>
      let rhs := shownSymbols rhs
      s!"expand {name} -> {rhs} at token {consumed}"
  | explored takes found => s!"explored {takes} configurations, found {found} candidates"
  | completed entered candidates isComplete =>
      s!"{entered} tokens entered: {candidates} candidates, complete: {isComplete}"
  | picked token choices => s!"picked `{token}` out of {choices} choices"

/-- A diagnostic as it is printed. -/
def shown (d : Diagnostic) : String :=
  let level := d.level.shown
  let topic := d.topic
  let text := d.text
  s!"[{level}:{topic}] {text}"

end Diagnostic

/-! ## What a search tells -/

/-- The expansions at one configuration that a search took. -/
def Exploration.expansions (e : Exploration) (c : Configuration) : List Diagnostic :=
  match c.pending with
  | .symbol (.nonterminal name) :: _ =>
      (e.grammar.productionsFor name).map fun p =>
        .expanded name p.rhs (c.consumed e.entered)
  | _ => []

/-- What a search for a completion tells: each expansion, the search, and what
came of it. -/
def Exploration.diagnostics (e : Exploration) : List Diagnostic :=
  e.taken.flatMap e.expansions ++
    [.explored e.takes e.countFound,
      .completed e.entered.length e.tokens.length e.isSentence]

/-- What loading a grammar tells. -/
def loadDiagnostics (format : Format) (file : String) : Loaded → List Diagnostic
  | .ok g => [.loaded format file g.productions.length g.start]
  | .error _ => []

/-! ## Tests -/

example : (Settings.mk .trace ["search"]).shows .debug "search.completion" = true ∧
    (Settings.mk .trace ["search"]).shows .debug "composer" = false ∧
    (Settings.mk .info []).shows .trace "search" = false := by decide +kernel

end SentenceGuide
