import SentenceGuide.Proofs.Composing
import SentenceGuide.Proofs.Order

/-!
# Only the set of the productions counts

A grammar includes another one if it has the same start name and all productions
of the other one, in whatever order and however often.  Whatever the smaller
grammar derives, the larger one derives too, and every step of a search in the
smaller one is a step of the search in the larger one.  So a search that drains
in the larger grammar drains in the smaller one, and finds there no more
(`complete_mono`).

Two grammars are alike if each includes the other.  Their searches need not look
alike: a production that is repeated repeats all that follows it, and other orders
of the productions are other orders of the search.  But they come to the same
completions.  A run of the composer sees nothing of a search but the completion,
so it picks the same tokens with the same words (`Composes.of_alike`).
-/

namespace SentenceGuide

open SentenceGuide.Configuration (Follows Ends follows_nonterminal_iff follows_terminal_iff
  not_follows_nil not_follows_sentinel)

variable {g g' : Grammar}

/-! ## More productions -/

section Subset

variable (hsub : g.productions ⊆ g'.productions) {c d : Configuration} {entered : List String}
  {seed : List Pending} {order order' : Order} {budget budget' : Nat} {e e' : Exploration}

include hsub

theorem Grammar.Reads.mono {stack left : List Symbol} {tokens : List String}
    (h : g.Reads stack tokens left) : g'.Reads stack tokens left := by
  induction h with
  | done stack => exact .done stack
  | token t _ ih => exact .token t ih
  | expand hp _ ih => exact .expand (hsub hp) ih

theorem Configuration.Follows.mono (h : Follows g c d) : Follows g' c d := by
  match c, h with
  | ⟨[], _⟩, h => exact absurd h not_follows_nil
  | ⟨.sentinel :: _, _⟩, h => exact absurd h not_follows_sentinel
  | ⟨.symbol (.terminal t) :: rest, unmatched⟩, h =>
      exact follows_terminal_iff.mpr (follows_terminal_iff.mp h)
  | ⟨.symbol (.nonterminal name) :: rest, unmatched⟩, h =>
      obtain ⟨p, hp, hname, hd⟩ := follows_nonterminal_iff.mp h
      exact follows_nonterminal_iff.mpr ⟨p, hsub hp, hname, hd⟩

theorem Configuration.Ends.anti (h : Ends g' c) : Ends g c :=
  Subrelation.accessible (Follows.mono hsub) h

/-- A search that drains in a grammar drains in every smaller one. -/
theorem Drains.anti (h : Drains g' entered seed order) : Drains g entered seed order :=
  drains_iff_ends.mpr ((drains_iff_ends.mp h).anti hsub)

theorem tokens_subset (h : explore budget g entered seed order = some e)
    (h' : explore budget' g' entered seed order' = some e') : e.tokens ⊆ e'.tokens := by
  intro t ht
  rw [Exploration.mem_tokens_iff, token_mem_findings_iff h] at ht
  obtain ⟨rest, hreads⟩ := ht
  rw [Exploration.mem_tokens_iff, token_mem_findings_iff h']
  exact ⟨rest, hreads.mono hsub⟩

theorem isSentence_mono (h : explore budget g entered seed order = some e)
    (h' : explore budget' g' entered seed order' = some e') (hsentence : e.isSentence = true) :
    e'.isSentence = true := by
  rw [Exploration.isSentence_iff, endOfSentence_mem_findings_iff h] at hsentence
  obtain ⟨hsentinel, hreads⟩ := hsentence
  rw [Exploration.isSentence_iff, endOfSentence_mem_findings_iff h']
  exact ⟨hsentinel, hreads.mono hsub⟩

end Subset

/-! ## The same productions -/

/-- Two grammars with the same start name and the same productions, in whatever
order and however often. -/
structure Grammar.Alike (g g' : Grammar) : Prop where
  /-- The start names agree. -/
  start_eq : g.start = g'.start
  /-- The second grammar has the productions of the first. -/
  subset : g.productions ⊆ g'.productions
  /-- The first grammar has the productions of the second. -/
  superset : g'.productions ⊆ g.productions

namespace Grammar.Alike

variable {entered : List String} {seed : List Pending} {order : Order} {budget : Nat}
  {e e' : Exploration}

theorem symm (h : g.Alike g') : g'.Alike g := ⟨h.start_eq.symm, h.superset, h.subset⟩

theorem startSymbol_eq (h : g.Alike g') : g.startSymbol = g'.startSymbol :=
  congrArg Symbol.nonterminal h.start_eq

/-- Searches in grammars that are alike drain together and come to the same
completion. -/
theorem exists_explore (h : g.Alike g') (he : explore budget g entered seed order = some e) :
    ∃ budget' e', explore budget' g' entered seed order = some e' ∧
      e'.completion = e.completion := by
  have hdrains : Drains g entered seed order := ⟨budget, Option.isSome_iff_exists.mpr ⟨e, he⟩⟩
  obtain ⟨budget', hsome⟩ := hdrains.anti h.superset
  obtain ⟨e', he'⟩ := Option.isSome_iff_exists.mp hsome
  have htokens : e'.tokens = e.tokens := by
    apply Exploration.tokens_ext
    intro t
    exact ⟨fun ht => tokens_subset h.superset he' he ht, fun ht => tokens_subset h.subset he he' ht⟩
  have hsentence : e'.isSentence = e.isSentence := by
    rw [Bool.eq_iff_iff]
    exact ⟨isSentence_mono h.superset he' he, isSentence_mono h.subset he he'⟩
  refine ⟨budget', e', he', ?_⟩
  rw [Exploration.completion, htokens, hsentence, Exploration.completion]

theorem exists_complete (h : g.Alike g') {c : Completion}
    (hc : ∃ budget, g.complete budget order entered = some c) :
    ∃ budget, g'.complete budget order entered = some c := by
  obtain ⟨budget, hc⟩ := hc
  obtain ⟨e, he, rfl⟩ := exists_explore_of_complete hc
  rw [h.startSymbol_eq] at he
  obtain ⟨budget', e', he', hcompletion⟩ := h.exists_explore he
  exact ⟨budget', Option.map_eq_some_iff.mpr ⟨e', he', hcompletion⟩⟩

theorem exists_continuations (h : g.Alike g') {tokens : Text.Vocabulary}
    (hc : ∃ budget, g.continuations budget order entered = some tokens) :
    ∃ budget, g'.continuations budget order entered = some tokens := by
  obtain ⟨budget, hc⟩ := hc
  obtain ⟨e, he, rfl⟩ := Option.map_eq_some_iff.mp hc
  rw [h.startSymbol_eq] at he
  obtain ⟨budget', e', he', hcompletion⟩ := h.exists_explore he
  exact ⟨budget', Option.map_eq_some_iff.mpr ⟨e', he', congrArg Completion.candidates hcompletion⟩⟩

theorem exists_seek (h : g.Alike g') {tokens : List String}
    (he : g.seek budget order tokens = some e) :
    ∃ budget' e', g'.seek budget' order tokens = some e' ∧ e'.completion = e.completion := by
  rw [Grammar.seek, h.startSymbol_eq] at he
  exact h.exists_explore he

end Grammar.Alike

/-! ## Composing -/

/-- Composing comes to an outcome with some picks and leaves some words. -/
def Grammar.Composed (g : Grammar) (limit : Nat) (words : Words)
    (outcome : Except ComposeFault (List String)) (picks : List Nat) (left : Words) : Prop :=
  ∃ budget c, g.compose budget limit words = some c ∧ c.outcome = outcome ∧ c.picks = picks ∧
    c.words = left

/-- A run of the composer can be followed in a grammar that is alike.  Only what the
searches tell may differ. -/
theorem Composes.of_alike (h : g.Alike g') {budget limit room : Nat} {tokens : List String}
    {words : Words} {c : Composition} (hrun : Composes g budget limit tokens words room c) :
    ∃ budget' c', Composes g' budget' limit tokens words room c' ∧ c'.outcome = c.outcome ∧
      c'.picks = c.picks ∧ c'.words = c.words := by
  induction hrun with
  | deadEnd hseek hdead =>
      obtain ⟨budget', e', hseek', heq⟩ := h.exists_seek hseek
      rw [← heq] at hdead
      exact ⟨budget', _, .deadEnd hseek' hdead, rfl, rfl, rfl⟩
  | stop hseek hdead hpick hstop =>
      obtain ⟨budget', e', hseek', heq⟩ := h.exists_seek hseek
      rw [← heq] at hdead hpick hstop ⊢
      exact ⟨budget', _, .stop hseek' hdead hpick hstop, rfl, rfl, rfl⟩
  | full hseek hdead hpick ht =>
      obtain ⟨budget', e', hseek', heq⟩ := h.exists_seek hseek
      rw [← heq] at hdead hpick ht ⊢
      exact ⟨budget', _, .full hseek' hdead hpick ht, rfl, rfl, rfl⟩
  | pick hseek hdead hpick ht _ ih =>
      obtain ⟨first, e', hseek', heq⟩ := h.exists_seek hseek
      obtain ⟨second, c', hrun', houtcome, hpicks, hwords⟩ := ih
      rw [← heq] at hdead hpick ht ⊢
      have hfirst := explore_mono hseek' (Nat.le_max_left first second)
      have hsecond := hrun'.mono (Nat.le_max_right first second)
      exact ⟨_, _, .pick hfirst hdead hpick ht hsecond, houtcome, congrArg (_ :: ·) hpicks, hwords⟩

theorem Grammar.Alike.composed (h : g.Alike g') {limit : Nat} {words left : Words}
    {outcome : Except ComposeFault (List String)} {picks : List Nat}
    (hc : g.Composed limit words outcome picks left) :
    g'.Composed limit words outcome picks left := by
  obtain ⟨budget, c, hc, rfl, rfl, rfl⟩ := hc
  obtain ⟨budget', c', hrun, houtcome, hpicks, hwords⟩ := (composes_of_composeFrom hc).of_alike h
  exact ⟨budget', c', hrun.composeFrom_eq, houtcome, hpicks, hwords⟩

/-! ## Completions and sentences -/

/-- A search for a completion that drains in a grammar drains in every grammar that
it includes, which has no more candidates there and is no more often complete.  If
each grammar includes the other, they have the same completions and continuations,
and composing with the same words gives the same with the same words drawn. -/
theorem complete_mono (hstart : g.start = g'.start) (hsub : g.productions ⊆ g'.productions) :
    (∀ entered order, Drains g' entered [.symbol g'.startSymbol, .sentinel] order →
      Drains g entered [.symbol g.startSymbol, .sentinel] order) ∧
    (∀ entered budget budget' order order' c c', g.complete budget order entered = some c →
      g'.complete budget' order' entered = some c' →
        c.candidates ⊆ c'.candidates ∧ (c.isComplete = true → c'.isComplete = true)) ∧
    (g'.productions ⊆ g.productions →
      (∀ entered order c, (∃ budget, g.complete budget order entered = some c) ↔
        ∃ budget, g'.complete budget order entered = some c) ∧
      (∀ entered order tokens, (∃ budget, g.continuations budget order entered = some tokens) ↔
        ∃ budget, g'.continuations budget order entered = some tokens) ∧
      ∀ limit words outcome picks left, g.Composed limit words outcome picks left ↔
        g'.Composed limit words outcome picks left) := by
  have hsymbol : g.startSymbol = g'.startSymbol := congrArg Symbol.nonterminal hstart
  refine ⟨?_, ?_, ?_⟩
  · intro entered order h
    rw [hsymbol]
    exact h.anti hsub
  · intro entered budget budget' order order' c c' h h'
    obtain ⟨e, he, rfl⟩ := Grammar.exists_explore_of_complete h
    obtain ⟨e', he', rfl⟩ := Grammar.exists_explore_of_complete h'
    rw [hsymbol] at he
    exact ⟨tokens_subset hsub he he', isSentence_mono hsub he he'⟩
  · intro hsuper
    have h : g.Alike g' := ⟨hstart, hsub, hsuper⟩
    refine ⟨?_, ?_, ?_⟩
    · intro entered order c
      exact ⟨h.exists_complete, h.symm.exists_complete⟩
    · intro entered order tokens
      exact ⟨h.exists_continuations, h.symm.exists_continuations⟩
    · intro limit words outcome picks left
      exact ⟨h.composed, h.symm.composed⟩

/-- The productions of the brackets in another order, one of them twice. -/
def shuffledBrackets : Grammar :=
  .ofProductions "S"
    [⟨"A", [.terminal "x"]⟩, ⟨"S", [.nonterminal "A"]⟩, ⟨"A", []⟩, ⟨"S", [.nonterminal "A"]⟩,
      ⟨"S", [.terminal "(", .nonterminal "S", .terminal ")"]⟩]

theorem complete_shuffledBrackets :
    (Grammar.brackets.start = shuffledBrackets.start ∧
      Grammar.brackets.productions ⊆ shuffledBrackets.productions ∧
      shuffledBrackets.productions ⊆ Grammar.brackets.productions) ∧
    Drains shuffledBrackets ["("] [.symbol shuffledBrackets.startSymbol, .sentinel] .fifo ∧
    Drains Grammar.brackets ["("] [.symbol Grammar.brackets.startSymbol, .sentinel] .fifo ∧
    (∃ budget, shuffledBrackets.complete budget .lifo ["("] = some ⟨["(", ")", "x"], false⟩) ∧
    (∃ budget, shuffledBrackets.continuations budget .lifo [] = some ["(", "x"]) ∧
    shuffledBrackets.Composed 2 ⟨[], 0⟩ (.error (.tokenLimit 2)) [3, 3, 3] ⟨[], 3⟩ := by
  have hstart : Grammar.brackets.start = shuffledBrackets.start := rfl
  have hsub : Grammar.brackets.productions ⊆ shuffledBrackets.productions := by decide
  have hsuper : shuffledBrackets.productions ⊆ Grammar.brackets.productions := by decide
  obtain ⟨hdrains, -, hsame⟩ := complete_mono hstart hsub
  obtain ⟨hcomplete, hcontinuations, hcomposed⟩ := hsame hsuper
  have h : Drains shuffledBrackets ["("] [.symbol shuffledBrackets.startSymbol, .sentinel] .fifo :=
    ⟨20, by decide +kernel⟩
  refine ⟨⟨hstart, hsub, hsuper⟩, h, hdrains _ _ h, ?_, ?_, ?_⟩
  · exact (hcomplete _ _ _).mp ⟨20, by decide +kernel⟩
  · exact (hcontinuations _ _ _).mp ⟨20, by decide +kernel⟩
  · have hcompose : (Grammar.brackets.compose 20 2 ⟨[], 0⟩).map
        (fun c => (c.outcome, c.picks, c.words)) =
          some (.error (.tokenLimit 2), [3, 3, 3], ⟨[], 3⟩) := by decide +kernel
    obtain ⟨c, hc, heq⟩ := Option.map_eq_some_iff.mp hcompose
    obtain ⟨houtcome, hrest⟩ := Prod.mk.inj heq
    obtain ⟨hpicks, hleft⟩ := Prod.mk.inj hrest
    exact (hcomposed _ _ _ _ _).mp ⟨20, c, hc, houtcome, hpicks, hleft⟩

end SentenceGuide
