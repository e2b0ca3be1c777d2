import SentenceGuide.Proofs.Draining

/-!
# What a search finds

A search that drains has taken every configuration that it can reach from its
seed.  So what it found is what can be found anywhere, and that is known from the
readings: a token is found just if a leftmost derivation from the symbols above
the first sentinel begins with the tokens entered and has that token next, and
the end of a sentence just if there is a sentinel and those symbols derive the
tokens entered.
-/

namespace SentenceGuide

open Pending (above)

variable {g : Grammar} {budget : Nat} {entered : List String} {seed : List Pending}
  {order : Order} {e : Exploration}

/-- What a search found can be found somewhere. -/
theorem mem_findings_iff_reaches (h : explore budget g entered seed order = some e)
    {candidate : Candidate} :
    candidate ∈ e.findings ↔
      ∃ c, Configuration.Reaches g (.initial seed entered) c ∧ c.found = some candidate := by
  rw [Exploration.mem_findings_iff]
  exact exists_congr fun c => and_congr_left fun _ => mem_taken_iff h

theorem token_mem_findings_iff (h : explore budget g entered seed order = some e) {t : String} :
    .token t ∈ e.findings ↔ ∃ rest, g.Reads (above seed) entered (.terminal t :: rest) :=
  (mem_findings_iff_reaches h).trans Configuration.exists_reaches_token_iff

theorem endOfSentence_mem_findings_iff (h : explore budget g entered seed order = some e) :
    .endOfSentence ∈ e.findings ↔ .sentinel ∈ seed ∧ g.Reads (above seed) entered [] :=
  (mem_findings_iff_reaches h).trans Configuration.exists_reaches_endOfSentence_iff

/-- A search that drains finds the tokens that leftmost derivations have next
behind the tokens entered, and the end of a sentence if there is a derivation of
just these.  A name without productions ends a derivation, and a terminal is never
the name with its text. -/
theorem findings_iff_leftDerives (h : explore budget g entered seed order = some e) :
    (∀ t, .token t ∈ e.findings ↔
      ∃ rest, g.LeftDerives (above seed) (entered.map .terminal ++ .terminal t :: rest)) ∧
    (.endOfSentence ∈ e.findings ↔
      .sentinel ∈ seed ∧ g.LeftDerives (above seed) (entered.map .terminal)) ∧
    (∀ name (before : List String) after stack, (∀ p ∈ g.productions, p.lhs ≠ name) →
      ¬ g.LeftStep (before.map .terminal ++ .nonterminal name :: after) stack) ∧
    ∀ text, Symbol.terminal text ≠ .nonterminal text := by
  refine ⟨?_, ?_, ?_, ?_⟩
  · intro t
    rw [token_mem_findings_iff h, Grammar.exists_leftDerives_terminal_iff]
  · rw [endOfSentence_mem_findings_iff h, Grammar.leftDerives_terminals_iff]
  · intro name before after stack hname
    exact Grammar.not_leftStep_of_undefined hname before after
  · intro text htext
    cases htext

/-- `S` is a list in brackets or an `A`, and `A` is nothing, the token `S` or a
name without productions. -/
def nested : Grammar :=
  .ofProductions "S"
    [⟨"S", [.terminal "(", .nonterminal "S", .terminal ")"]⟩, ⟨"S", [.nonterminal "A"]⟩,
      ⟨"A", []⟩, ⟨"A", [.terminal "S"]⟩, ⟨"A", [.nonterminal "B", .terminal "b"]⟩]

/-- `S` over a sentinel, with a symbol beneath it that plays no part. -/
def nestedSeed : List Pending :=
  [.symbol (.nonterminal "S"), .sentinel, .symbol (.terminal "b")]

theorem findings_nested :
    ∃ e, explore 20 nested ["("] nestedSeed .fifo = some e ∧
      (∀ t, .token t ∈ e.findings ↔
        ∃ rest, nested.LeftDerives [.nonterminal "S"] (.terminal "(" :: .terminal t :: rest)) ∧
      (.endOfSentence ∈ e.findings ↔
        .sentinel ∈ nestedSeed ∧ nested.LeftDerives [.nonterminal "S"] [.terminal "("]) ∧
      (∀ stack, ¬ nested.LeftStep [.terminal "(", .nonterminal "B"] stack) ∧
      Symbol.terminal "S" ≠ .nonterminal "S" := by
  have hdrains : (explore 20 nested ["("] nestedSeed .fifo).isSome := by decide +kernel
  obtain ⟨e, he⟩ := Option.isSome_iff_exists.mp hdrains
  obtain ⟨htoken, hend, hundefined, htext⟩ := findings_iff_leftDerives he
  refine ⟨e, he, htoken, hend, ?_, htext "S"⟩
  intro stack
  exact hundefined "B" ["("] [] stack (by decide)

end SentenceGuide
