import SentenceGuide.Grammar.Index
import SentenceGuide.Text.Vocabulary

/-!
# Grammars

A context-free grammar is a start name and a list of productions.  A symbol is
a terminal, which is a token of the sentence, or a nonterminal, which stands
for whatever its productions derive.  A terminal and a nonterminal with the
same text are different symbols.

Nothing is required of a grammar.  A nonterminal may have no production, in
which case it derives nothing, and the start name is one such if no production
defines it.  A production may occur more than once.

A grammar carries the index of its left-hand names, so that the productions of
a name are found without a walk over all of them.  The index is determined by
the productions, and the type says so.
-/

namespace SentenceGuide

open Text (Vocabulary)

/-- What a right-hand side is made of. -/
inductive Symbol where
  /-- A token of the sentence. -/
  | terminal (text : String)
  /-- A name that productions expand. -/
  | nonterminal (name : String)
  deriving DecidableEq, Repr, Inhabited

namespace Symbol

/-- The token or the name. -/
def text : Symbol → String
  | terminal text => text
  | nonterminal name => name

/-- Whether the symbol is a terminal. -/
def isTerminal : Symbol → Bool
  | terminal _ => true
  | nonterminal _ => false

/-- The symbol with a given text of a given kind. -/
def ofText (text : String) (isTerminal : Bool) : Symbol :=
  if isTerminal then terminal text else nonterminal text

@[simp] theorem ofText_text_isTerminal (s : Symbol) : ofText s.text s.isTerminal = s := by
  cases s <;> rfl

end Symbol

/-- A name and one string of symbols that it may be expanded to. -/
structure Production where
  /-- The name that is expanded. -/
  lhs : String
  /-- What it is expanded to.  Nothing at all is the empty string of symbols. -/
  rhs : List Symbol
  deriving DecidableEq, Repr, Inhabited

/-- Whether a production expands its name to nothing. -/
def Production.isEpsilon (p : Production) : Bool := p.rhs.isEmpty

/-- A start name and productions, in the order in which they were declared. -/
structure Grammar where
  /-- The name that sentences are derived from. -/
  start : String
  /-- The productions. -/
  productions : List Production
  /-- Where each left-hand name stands among them. -/
  index : Grammar.Index
  /-- The index is that of the productions. -/
  index_eq : index = Grammar.Index.ofNames (productions.map (·.lhs))
  deriving DecidableEq

namespace Grammar

/-- The grammar of a start name and productions. -/
def ofProductions (start : String) (productions : List Production) : Grammar :=
  ⟨start, productions, .ofNames (productions.map (·.lhs)), rfl⟩

instance : Inhabited Grammar := ⟨ofProductions "" []⟩

/-- The same productions with another start name. -/
def withStart (g : Grammar) (start : String) : Grammar := ofProductions start g.productions

/-- The start name as a symbol. -/
def startSymbol (g : Grammar) : Symbol := .nonterminal g.start

/-- The productions that expand a name, in the order in which they were declared. -/
def productionsFor (g : Grammar) (name : String) : List Production :=
  (g.index.places name).filterMap (g.productions[·]?)

/-- Every terminal on some right-hand side. -/
def terminals (g : Grammar) : Vocabulary :=
  .ofList ((g.productions.flatMap (·.rhs)).filter Symbol.isTerminal |>.map Symbol.text)

/-- Every name that some production expands. -/
def nonterminals (g : Grammar) : Vocabulary := .ofList g.index.names

/-! ## Small laws -/

@[simp] theorem productions_ofProductions (start : String) (ps : List Production) :
    (ofProductions start ps).productions = ps := rfl

theorem mem_terminals {g : Grammar} {t : String} :
    t ∈ g.terminals ↔ ∃ p ∈ g.productions, Symbol.terminal t ∈ p.rhs := by
  simp only [terminals, Vocabulary.mem_ofList, List.mem_map, List.mem_filter, List.mem_flatMap]
  constructor
  · rintro ⟨s, ⟨⟨p, hp, hs⟩, ht⟩, rfl⟩
    cases s with
    | terminal t => exact ⟨p, hp, hs⟩
    | nonterminal n => cases ht
  · rintro ⟨p, hp, ht⟩
    exact ⟨.terminal t, ⟨⟨p, hp, ht⟩, rfl⟩, rfl⟩

/-! ## Tests -/

example : (ofProductions "S" [⟨"S", [.terminal "a"]⟩, ⟨"D", []⟩, ⟨"S", []⟩]).productionsFor "S" =
    [⟨"S", [.terminal "a"]⟩, ⟨"S", []⟩] := by decide +kernel

end Grammar

end SentenceGuide
