import SentenceGuide.Search.Configuration
import SentenceGuide.Search.Worklist

/-!
# Exploring

A search takes configurations out of a worklist and puts in those that follow,
until the worklist has drained.  The worklist decides the order, and nothing
else does.

There is no guard against a nonterminal that comes back to itself before any
token is matched.  A search that meets one never drains.  So a run has a budget,
the number of configurations it may take, and gives nothing if the worklist has
not drained by then.  A larger budget never changes what a run gives.

All that is known of a search afterwards is in the list of the configurations
that it took.  What it found, how often it put one in and how many it held at
once are read off that list.
-/

namespace SentenceGuide

open Text (Vocabulary)

/-- The configurations that a search took, in order. -/
structure Exploration where
  /-- The grammar that was searched. -/
  grammar : Grammar
  /-- The tokens that had been entered. -/
  entered : List String
  /-- The configurations taken. -/
  taken : List Configuration

/-- Takes configurations until the worklist has drained, and lists them behind
those already taken, which stand in reverse.  Gives nothing if the budget does
not reach. -/
def drain {ω : Type} [Worklist ω Configuration] (g : Grammar) (held : ω)
    (taken : List Configuration) : Nat → Option (List Configuration)
  | 0 =>
      match Worklist.take held with
      | none => some taken.reverse
      | some _ => none
  | budget + 1 =>
      match Worklist.take held with
      | none => some taken.reverse
      | some (c, held) => drain g (Worklist.putAll (c.next g) held) (c :: taken) budget

/-- Searches from a seed with an empty worklist of a given type. -/
def exploreIn (ω : Type) [Worklist ω Configuration] (budget : Nat) (g : Grammar)
    (entered : List String) (seed : List Pending) : Option Exploration :=
  let start : ω := Worklist.put (.initial seed entered) Worklist.empty
  (drain g start [] budget).map (⟨g, entered, ·⟩)

/-- Searches from a seed with the worklist of an order. -/
def explore (budget : Nat) (g : Grammar) (entered : List String) (seed : List Pending) :
    Order → Option Exploration
  | .lifo => exploreIn (Stack Configuration) budget g entered seed
  | .fifo => exploreIn (Queue Configuration) budget g entered seed

namespace Exploration

/-- What the search found, once for each time that it was found. -/
def findings (e : Exploration) : List Candidate := e.taken.filterMap Configuration.found

/-- The tokens that the search found. -/
def tokens (e : Exploration) : Vocabulary :=
  .ofList (e.findings.filterMap fun
    | .token text => some text
    | .endOfSentence => none)

/-- Whether the search found that the tokens entered are a sentence. -/
def isSentence (e : Exploration) : Bool := e.findings.contains .endOfSentence

/-- How many different candidates the search found. -/
def countFound (e : Exploration) : Nat := e.tokens.length + if e.isSentence then 1 else 0

/-- How many configurations the search took. -/
def takes (e : Exploration) : Nat := e.taken.length

/-- How many configurations the search put in, the seed among them. -/
def puts (e : Exploration) : Nat :=
  e.taken.foldl (fun n c => n + (c.next e.grammar).length) 1

/-- The most configurations that were held at once. -/
def peak (e : Exploration) : Nat :=
  let step : Nat × Nat → Configuration → Nat × Nat := fun (held, most) c =>
    let held := held - 1 + (c.next e.grammar).length
    (held, max most held)
  (e.taken.foldl step (1, 1)).2

end Exploration

/-! ## Tests -/

/-- `START` is `go` and a direction, which is `north` or `south`. -/
def directions : Grammar :=
  .ofProductions "START"
    [⟨"START", [.terminal "go", .nonterminal "DIR"]⟩, ⟨"DIR", [.terminal "north"]⟩,
      ⟨"DIR", [.terminal "south"]⟩]

example : (explore 10 directions ["go"] [.symbol directions.startSymbol, .sentinel] .lifo).map
    (fun e => (e.tokens, e.isSentence, e.takes, e.puts, e.peak)) =
    some (["north", "south"], false, 5, 5, 2) := by decide +kernel

example : (explore 4 directions ["go"] [.symbol directions.startSymbol, .sentinel] .fifo).isNone =
    true := by decide +kernel

end SentenceGuide
