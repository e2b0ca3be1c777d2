import SentenceGuide.Proofs.Sentinel
import SentenceGuide.Proofs.Viable

/-!
# What can be offered at all

Only terminals of the grammar are ever offered, since everything that comes to the top of
a stack is the start symbol or stands in some production.

Each of them is offered somewhere, if every name in the productions can be reached and is
productive.  A terminal stands in some production, and the name of that production can be
reached.  On the way there, and in the production itself, other symbols may stand in
front.  They are productive, so tokens can be put in their place
(`Reads.exists_symbol`).  Behind all these tokens the terminal comes to the top, and a
search that drains finds it there.
-/

namespace SentenceGuide

open Relation (TransGen)

namespace Grammar

variable {g : Grammar} {p : Production} {name : String} {s : Symbol} {stack rest : List Symbol}
  {before : List String}

/-- A name that some production expands or has in its right-hand side. -/
def Occurs (g : Grammar) (name : String) : Prop :=
  ∃ p ∈ g.productions, p.lhs = name ∨ .nonterminal name ∈ p.rhs

/-- Where a name comes to the top, each symbol in a right-hand side of it can come to the
top too, behind more tokens. -/
theorem Reads.exists_symbol (hproductive : ∀ name, g.Occurs name → g.Productive name)
    (h : g.Reads stack before (.nonterminal p.lhs :: rest)) (hp : p ∈ g.productions)
    (hs : s ∈ p.rhs) : ∃ before' rest', g.Reads stack before' (s :: rest') := by
  obtain ⟨left, right, hrhs⟩ := List.append_of_mem hs
  have hleft : ∀ name, .nonterminal name ∈ left → g.Productive name := by
    intro name hname
    refine hproductive name ⟨p, hp, .inr ?_⟩
    rw [hrhs]
    exact List.mem_append_left _ hname
  -- Tokens take the place of the symbols in front.
  obtain ⟨tokens, htokens⟩ := exists_reads_of_productive left hleft
  have hfront : g.Reads (left ++ (s :: right ++ rest)) tokens (s :: right ++ rest) :=
    htokens.append _
  refine ⟨before ++ tokens, right ++ rest, h.trans (.expand hp ?_)⟩
  rwa [hrhs, List.append_assoc]

/-- A name that can be reached comes to the top somewhere. -/
theorem Reachable.exists_reads (hproductive : ∀ name, g.Occurs name → g.Productive name)
    (h : g.Reachable name) :
    ∃ before rest, g.Reads [g.startSymbol] before (.nonterminal name :: rest) := by
  induction h with
  | start => exact ⟨[], [], .done _⟩
  | rhs hp _ hmem ih =>
      obtain ⟨before, rest, h⟩ := ih
      exact h.exists_symbol hproductive hp hmem

/-- A terminal of a production whose name can be reached is viable behind some tokens. -/
theorem exists_viable_of_mem_terminals {t : String}
    (hreachable : ∀ name, g.Occurs name → g.Reachable name)
    (hproductive : ∀ name, g.Occurs name → g.Productive name) (ht : t ∈ g.terminals) :
    ∃ before, g.Viable (before ++ [t]) := by
  obtain ⟨p, hp, ht⟩ := mem_terminals.mp ht
  have hlhs : g.Reachable p.lhs := hreachable p.lhs ⟨p, hp, .inl rfl⟩
  obtain ⟨before, rest, h⟩ := hlhs.exists_reads hproductive
  obtain ⟨before, rest, h⟩ := h.exists_symbol hproductive hp ht
  exact ⟨before, viable_concat_iff.mpr ⟨rest, h⟩⟩

theorem mem_continuations_iff_viable {budget : Nat} {order : Order} {entered : List String}
    {tokens : Text.Vocabulary} {t : String}
    (h : g.continuations budget order entered = some tokens) :
    t ∈ tokens ↔ g.Viable (entered ++ [t]) := by
  obtain ⟨c, hc, rfl⟩ := exists_complete_of_continuations h
  exact mem_candidates_iff_viable hc

/-- Whatever may follow some tokens is a terminal of the grammar.  If no name comes back to
the top before a token is read, and all names in the productions can be reached and are
productive, each terminal may follow some tokens. -/
theorem terminals_are_offered (g : Grammar) :
    (∀ budget order entered tokens, g.continuations budget order entered = some tokens →
      tokens ⊆ g.terminals) ∧
    ((∀ name, ¬ TransGen g.Exposes name name) →
      (∀ name, g.Occurs name → g.Reachable name ∧ g.Productive name) →
      ∀ t ∈ g.terminals, ∃ entered, ∀ order, ∃ budget tokens,
        g.continuations budget order entered = some tokens ∧ t ∈ tokens) := by
  constructor
  · intro budget order entered tokens h
    obtain ⟨c, hc, rfl⟩ := exists_complete_of_continuations h
    exact candidates_subset_terminals hc
  · intro hacyclic huseful t ht
    obtain ⟨entered, hviable⟩ := exists_viable_of_mem_terminals
      (fun name hname => (huseful name hname).1) (fun name hname => (huseful name hname).2) ht
    refine ⟨entered, ?_⟩
    intro order
    obtain ⟨budget, hsome⟩ := drains_of_acyclic hacyclic entered [.symbol g.startSymbol] order
    obtain ⟨e, he⟩ := Option.isSome_iff_exists.mp hsome
    have htokens : g.continuations budget order entered = some e.tokens :=
      Option.map_eq_some_iff.mpr ⟨e, he, rfl⟩
    exact ⟨budget, e.tokens, htokens, (mem_continuations_iff_viable htokens).mpr hviable⟩

theorem useful_optionals (name : String) (h : optionals.Occurs name) :
    optionals.Reachable name ∧ optionals.Productive name := by
  have hA : optionals.Reads [.nonterminal "A"] [] [] :=
    .expand (p := ⟨"A", []⟩) (by decide) (.done [])
  have hS : optionals.Reads [.nonterminal "S"] [] [] :=
    .expand (p := ⟨"S", [.nonterminal "A"]⟩) (by decide) hA
  have hname : name = "S" ∨ name = "A" := by
    obtain ⟨p, hp, h⟩ := h
    simp only [optionals, productions_ofProductions, List.mem_cons, List.not_mem_nil,
      or_false] at hp
    rcases hp with rfl | rfl | rfl | rfl <;> simp at h <;> tauto
  rcases hname with rfl | rfl
  · exact ⟨.start, [], reads_nil_iff_derives.mp hS⟩
  · refine ⟨.rhs (p := ⟨"S", [.nonterminal "A"]⟩) (by decide) .start (by decide), [], ?_⟩
    exact reads_nil_iff_derives.mp hA

theorem terminals_are_offered_optionals :
    (∀ name, ¬ TransGen optionals.Exposes name name) ∧
    (∀ name, optionals.Occurs name → optionals.Reachable name ∧ optionals.Productive name) ∧
    (∃ entered, ∀ order, ∃ budget tokens,
      optionals.continuations budget order entered = some tokens ∧ "x" ∈ tokens) ∧
    optionals.continuations 40 .fifo ["x"] = some ["a", "x"] ∧
    ["a", "x"] ⊆ optionals.terminals := by
  have hacyclic : ∀ name, ¬ TransGen optionals.Exposes name name := by
    refine acyclic_of_rank (fun name => if name = "S" then 1 else 0) ?_
    intro name other h
    obtain ⟨rfl, rfl⟩ := exposes_optionals h
    decide
  obtain ⟨hsubset, hoffered⟩ := terminals_are_offered optionals
  have hx : optionals.continuations 40 .fifo ["x"] = some ["a", "x"] := by decide +kernel
  exact ⟨hacyclic, useful_optionals, hoffered hacyclic useful_optionals "x" (by decide +kernel), hx,
    hsubset 40 .fifo ["x"] _ hx⟩

end Grammar

end SentenceGuide
