import SentenceGuide.Search.Exploration

/-!
# Completions

What can follow the tokens entered so far, and whether they are a sentence.  The
search starts with the start symbol on top of the sentinel, so the sentinel
comes to the top exactly where a whole sentence has been derived.

The tokens are a dead end if nothing can follow and they are no sentence.
-/

namespace SentenceGuide

open Text (Vocabulary)

/-- What can follow some tokens. -/
structure Completion where
  /-- The tokens that may come next. -/
  candidates : Vocabulary
  /-- Whether the tokens are a sentence. -/
  isComplete : Bool
  deriving DecidableEq, Repr

/-- Whether nothing can follow tokens that are no sentence. -/
def Completion.isDeadEnd (c : Completion) : Bool := c.candidates.isEmpty && !c.isComplete

/-- What a search found, as a completion. -/
def Exploration.completion (e : Exploration) : Completion := ⟨e.tokens, e.isSentence⟩

namespace Grammar

/-- Searches for what can follow some tokens, and for the end of a sentence. -/
def seek (g : Grammar) (budget : Nat) (order : Order) (entered : List String) :
    Option Exploration :=
  explore budget g entered [.symbol g.startSymbol, .sentinel] order

/-- What can follow some tokens, if the search drains within the budget. -/
def complete (g : Grammar) (budget : Nat) (order : Order) (entered : List String) :
    Option Completion :=
  (g.seek budget order entered).map Exploration.completion

/-- The tokens that may follow some tokens, searched for without a sentinel. -/
def continuations (g : Grammar) (budget : Nat) (order : Order) (entered : List String) :
    Option Vocabulary :=
  (explore budget g entered [.symbol g.startSymbol] order).map Exploration.tokens

end Grammar

/-! ## Tests -/

example : directions.complete 10 .lifo ["go"] = some ⟨["north", "south"], false⟩ := by
  decide +kernel

example : directions.complete 10 .fifo ["go", "north"] = some ⟨[], true⟩ := by decide +kernel

example : (directions.complete 10 .lifo ["up"]).map Completion.isDeadEnd = some true := by
  decide +kernel

end SentenceGuide
