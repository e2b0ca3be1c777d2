import SentenceGuide.Grammar.Basic
import SentenceGuide.Text.Quoted

/-!
# Configurations of the search

The search follows leftmost derivations against the tokens that have been
entered.  A configuration is one derivation under way: a stack of what is still
to be derived, and the tokens that it has not yet matched.

One step looks at the top of the stack.

* A nonterminal is replaced by the right-hand side of each of its productions,
  which gives one configuration for each.
* A terminal is matched against the next token and both go.  If they differ the
  derivation ends there.  If no token is left, the terminal may come next.
* A sentinel lies beneath the start symbol.  If it comes to the top and no token
  is left, the tokens are a sentence.
* An empty stack has nothing to propose.

So a step gives the configurations that follow, and it may find a candidate for
what comes next.  The sentinel is no symbol, and cannot be taken for a terminal
of any text.
-/

namespace SentenceGuide

open Text (quote)

/-- An entry of a stack. -/
inductive Pending where
  /-- A symbol to derive. -/
  | symbol (s : Symbol)
  /-- The mark beneath everything that a sentence must derive. -/
  | sentinel
  deriving DecidableEq, Repr

/-- What can come next. -/
inductive Candidate where
  /-- A token. -/
  | token (text : String)
  /-- Nothing: the tokens entered are a sentence. -/
  | endOfSentence
  deriving DecidableEq, Repr

/-- A derivation under way. -/
structure Configuration where
  /-- What is still to be derived, the next of it first. -/
  pending : List Pending
  /-- The tokens that have not been matched. -/
  unmatched : List String
  deriving DecidableEq, Repr

namespace Configuration

/-- A configuration from which nothing has been matched. -/
def initial (seed : List Pending) (entered : List String) : Configuration := ⟨seed, entered⟩

/-- What a configuration finds to come next. -/
def found : Configuration → Option Candidate
  | ⟨.sentinel :: _, []⟩ => some .endOfSentence
  | ⟨.symbol (.terminal text) :: _, []⟩ => some (.token text)
  | _ => none

/-- The configuration in which a nonterminal on top has been replaced. -/
def expand (rest : List Pending) (unmatched : List String) (p : Production) : Configuration :=
  ⟨p.rhs.map .symbol ++ rest, unmatched⟩

/-- The configurations that follow one, in the order of the productions. -/
def next (g : Grammar) : Configuration → List Configuration
  | ⟨.symbol (.nonterminal name) :: rest, unmatched⟩ =>
      (g.productionsFor name).map (expand rest unmatched)
  | ⟨.symbol (.terminal text) :: rest, token :: unmatched⟩ =>
      if token = text then [⟨rest, unmatched⟩] else []
  | _ => []

/-- How many of the tokens entered have been matched. -/
def consumed (entered : List String) (c : Configuration) : Nat :=
  entered.length - c.unmatched.length

end Configuration

/-! ## How they are shown -/

/-- A symbol as it is shown. -/
def Symbol.shown : Symbol → String
  | terminal text => "Terminal(" ++ quote text ++ ")"
  | nonterminal name => "Nonterminal(" ++ quote name ++ ")"

/-- Items between brackets, as they are shown. -/
def shownList (items : List String) : String := "[" ++ ", ".intercalate items ++ "]"

/-- A right-hand side as it is shown. -/
def shownSymbols (symbols : List Symbol) : String := shownList (symbols.map Symbol.shown)

/-- An entry of a stack as it is shown. -/
def Pending.shown : Pending → String
  | symbol s => "Symbol(" ++ s.shown ++ ")"
  | sentinel => "Sentinel"

/-- A configuration as it is shown, the top of the stack last. -/
def Configuration.shown (entered : List String) (c : Configuration) : String :=
  let pending := shownList (c.pending.reverse.map Pending.shown)
  let consumed := toString (c.consumed entered)
  "Configuration \x7b pending: " ++ pending ++ ", consumed: " ++ consumed ++ " \x7d"

/-! ## Tests -/

example : Configuration.next (.ofProductions "S" [⟨"S", [.terminal "a"]⟩, ⟨"S", []⟩])
    ⟨[.symbol (.nonterminal "S"), .sentinel], ["a"]⟩ =
    [⟨[.symbol (.terminal "a"), .sentinel], ["a"]⟩, ⟨[.sentinel], ["a"]⟩] := by decide +kernel

example : Configuration.found ⟨[.symbol (.terminal "a")], []⟩ = some (.token "a") := rfl

end SentenceGuide
