import SentenceGuide.Bnf.Token
import SentenceGuide.Grammar.Basic

/-!
# Rules

A rule is a name, an arrow, and alternatives between bars.  A word in an
alternative is a nonterminal and a quoted text is a terminal.  An alternative
may be empty, so a body with no token at all has one empty alternative, and a
body with `n` bars has `n + 1` alternatives.

A rule is at fault if it does not start with a word, if no arrow follows, or if
a second arrow stands in its body.  The first of these that holds is the fault
that is reported.  Two causes in the type never arise from a line of a text: a
bar that is left once the body has been cut at its bars, and a rule with no
token.
-/

namespace SentenceGuide.Bnf

/-- What can be wrong with a rule. -/
inductive RuleFault where
  /-- No arrow follows the name. -/
  | missingArrow
  /-- A second arrow stands in the body. -/
  | strayArrow
  /-- The rule does not start with a word. -/
  | badRuleName
  /-- A quote is not closed. -/
  | unclosedQuote
  /-- A bar was left between alternatives. -/
  | unsplitRule
  /-- The rule has no token. -/
  | blankRule
  deriving DecidableEq, Repr

/-- The fault in words. -/
def RuleFault.message : RuleFault → String
  | missingArrow => "Rule name must be followed by `=` or `->`"
  | strayArrow => "Only one `=` or `->` is allowed per rule"
  | badRuleName => "A rule must start with a bare nonterminal name"
  | unclosedQuote => "Terminal is missing its closing quote"
  | unsplitRule => "Alternatives were not separated (bug in scaffold)"
  | blankRule => "Empty rule reached the parser (bug in scaffold)"

/-- A name and its alternatives, in the order written. -/
structure Rule where
  /-- The name that the rule defines. -/
  name : String
  /-- What it may be expanded to. -/
  alternatives : List (List Symbol)
  deriving DecidableEq, Repr

/-- The symbol that a token of an alternative stands for. -/
def Token.symbol : Token → Except RuleFault Symbol
  | .word name => .ok (.nonterminal name)
  | .quoted text => .ok (.terminal text)
  | .arrow => .error .strayArrow
  | .bar => .error .unsplitRule

/-- The stretches of a body between its bars. -/
def stretches : List Token → List (List Token)
  | [] => [[]]
  | t :: ts =>
      if t = .bar then [] :: stretches ts
      else
        match stretches ts with
        | [] => [[t]]
        | s :: ss => (t :: s) :: ss

/-- The rule that some tokens write. -/
def Rule.ofTokens : List Token → Except RuleFault Rule
  | .word name :: .arrow :: body => do
      let alternatives ← (stretches body).mapM fun stretch => stretch.mapM Token.symbol
      pure ⟨name, alternatives⟩
  | .word _ :: _ => .error .missingArrow
  | _ :: _ => .error .badRuleName
  | [] => .error .blankRule

/-- The rule that a line writes. -/
def Rule.ofLine (line : List Char) : Except RuleFault Rule :=
  match tokens line with
  | none => .error .unclosedQuote
  | some ts => Rule.ofTokens ts

/-- One production for each alternative. -/
def Rule.productions (rule : Rule) : List Production :=
  rule.alternatives.map fun rhs => ⟨rule.name, rhs⟩

/-! ## Small laws -/

theorem stretches_ne_nil (body : List Token) : stretches body ≠ [] := by
  cases body with
  | nil => simp [stretches]
  | cons t ts =>
      simp only [stretches]
      split
      · simp
      · split <;> simp

/-- A body has one stretch more than it has bars. -/
theorem length_stretches (body : List Token) :
    (stretches body).length = body.count .bar + 1 := by
  induction body with
  | nil => rfl
  | cons t ts ih =>
      simp only [stretches]
      by_cases h : t = .bar
      · simp [h, ih]
      · have : (t :: ts).count .bar = ts.count .bar := by simp [h]
        rw [if_neg h, this, ← ih]
        split
        · next hs => exact absurd hs (stretches_ne_nil ts)
        · next hs => rw [hs]; rfl

/-! ## Tests -/

example : (Rule.ofLine ['S', '=', '"', 'a', '"', '|']).toOption =
    some ⟨"S", [[.terminal "a"], []]⟩ := by decide +kernel

example : Rule.ofTokens [.word "S", .bar] = .error .missingArrow := rfl

example : Rule.ofTokens [.word "S", .arrow, .bar, .arrow] = .error .strayArrow := rfl

end SentenceGuide.Bnf
