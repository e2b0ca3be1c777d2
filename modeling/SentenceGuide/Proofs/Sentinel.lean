import SentenceGuide.Proofs.Findings
import SentenceGuide.Proofs.Order
import SentenceGuide.Proofs.Termination

/-!
# Nothing is seen beneath a sentinel

A configuration with a sentinel on top has nothing that follows it, and neither has
one with an empty stack.  So a search from a stack takes the same steps if a sentinel
is laid under the stack, with anything at all beneath it: each configuration that it
takes stands on what was laid under (`Run.map_atop`), and where the one search takes
an empty stack the other takes the sentinel.  The two drain within the same budgets.

The tokens that they find are the same.  Only the search with a sentinel can find the
end of a sentence, and what lies beneath the sentinel plays no part.
-/

namespace SentenceGuide

open Pending (above)

variable {g : Grammar} {entered : List String} {order order' : Order}

/-! ## A stack laid on another -/

namespace Configuration

/-- The configuration with more entries beneath its stack. -/
def atop (beneath : List Pending) (c : Configuration) : Configuration :=
  ⟨c.pending ++ beneath, c.unmatched⟩

/-- What follows is not changed by entries beneath, if no symbol comes to the top
there. -/
theorem next_atop {beneath : List Pending} (hbeneath : above beneath = []) (c : Configuration) :
    (c.atop beneath).next g = (c.next g).map (atop beneath) := by
  match c with
  | ⟨[], unmatched⟩ =>
      cases beneath with
      | nil => rfl
      | cons entry beneath =>
          cases entry with
          | symbol s => cases hbeneath
          | sentinel => rfl
  | ⟨.sentinel :: rest, unmatched⟩ => rfl
  | ⟨.symbol (.terminal t) :: rest, []⟩ => rfl
  | ⟨.symbol (.terminal t) :: rest, token :: unmatched⟩ =>
      by_cases h : token = t
      · simp [atop, next, h]
      · simp [atop, next, h]
  | ⟨.symbol (.nonterminal name) :: rest, unmatched⟩ =>
      simp [atop, next, expand, Function.comp_def]

end Configuration

open SentenceGuide.Configuration (atop)

namespace Run

variable {beneath : List Pending} {held : Multiset Configuration} {taken : List Configuration}

theorem next_atop_add (hbeneath : above beneath = []) (c : Configuration)
    (held : Multiset Configuration) :
    ↑((c.atop beneath).next g) + held.map (atop beneath) =
      (↑(c.next g) + held).map (atop beneath) := by
  rw [Configuration.next_atop hbeneath, Multiset.map_add, Multiset.map_coe]

/-- A run can be made on top of other entries. -/
theorem map_atop (hbeneath : above beneath = []) (h : Run g held taken) :
    Run g (held.map (atop beneath)) (taken.map (atop beneath)) := by
  induction h with
  | drained => exact .drained
  | @take held taken c _ ih =>
      rw [Multiset.map_cons, List.map_cons]
      refine .take _ ?_
      rwa [next_atop_add hbeneath]

/-- A run on top of other entries is a run without them. -/
theorem of_map_atop (hbeneath : above beneath = []) (h : Run g (held.map (atop beneath)) taken) :
    ∃ taken', taken = taken'.map (atop beneath) ∧ Run g held taken' := by
  generalize hheld : held.map (atop beneath) = all at h
  induction h generalizing held with
  | drained =>
      rw [Multiset.map_eq_zero] at hheld
      subst hheld
      exact ⟨[], rfl, .drained⟩
  | @take rest taken d _ ih =>
      obtain ⟨c, hc, rfl, rfl⟩ := (Multiset.map_eq_cons _ _ _ _).mpr hheld
      obtain ⟨rest, rfl⟩ := Multiset.exists_cons_of_mem hc
      rw [Multiset.erase_cons_head] at ih
      obtain ⟨taken', rfl, hrun⟩ := ih (next_atop_add hbeneath c rest).symm
      exact ⟨c :: taken', rfl, .take c hrun⟩

end Run

/-! ## Searches above a sentinel -/

/-- Searches with and without other entries beneath the seed drain within the same
budgets. -/
theorem explore_isSome_atop (order order' : Order) (budget : Nat) (seed beneath : List Pending)
    (hbeneath : above beneath = []) :
    (explore budget g entered seed order).isSome =
      (explore budget g entered (seed ++ beneath) order').isSome := by
  have hinitial : ({.initial (seed ++ beneath) entered} : Multiset Configuration) =
      Multiset.map (atop beneath) {.initial seed entered} := rfl
  rw [Bool.eq_iff_iff, explore_isSome_iff, explore_isSome_iff, hinitial]
  constructor
  · rintro ⟨taken, hrun, hle⟩
    exact ⟨taken.map (atop beneath), hrun.map_atop hbeneath, by rwa [List.length_map]⟩
  · rintro ⟨taken, hrun, hle⟩
    obtain ⟨taken', rfl, hrun'⟩ := hrun.of_map_atop hbeneath
    exact ⟨taken', hrun', by rwa [List.length_map] at hle⟩

/-- Searches with the same symbols above the first sentinel find the same tokens. -/
theorem tokens_eq_of_above {seed seed' : List Pending} {budget budget' : Nat} {e e' : Exploration}
    (h : explore budget g entered seed order = some e)
    (h' : explore budget' g entered seed' order' = some e') (habove : above seed = above seed') :
    e.tokens = e'.tokens := by
  apply Exploration.tokens_eq_of_findings
  intro t
  rw [token_mem_findings_iff h, token_mem_findings_iff h', habove]

/-- A completion offers what may follow the tokens entered, in whatever order the
two are searched for. -/
theorem candidates_eq_continuations (budget : Nat) (order order' : Order) :
    (g.complete budget order entered).map Completion.candidates =
      g.continuations budget order' entered := by
  rw [Grammar.complete, Grammar.seek, Grammar.continuations, Option.map_map]
  apply map_eq_map_of_isSome_eq
  · exact (explore_isSome_atop order' order budget [.symbol g.startSymbol] [.sentinel] rfl).symm
  · intro e e' h h'
    exact tokens_eq_of_above h h' rfl

theorem exists_complete_of_continuations {budget : Nat} {tokens : Text.Vocabulary}
    (h : g.continuations budget order entered = some tokens) :
    ∃ c, g.complete budget order entered = some c ∧ c.candidates = tokens := by
  rwa [← candidates_eq_continuations budget order order, Option.map_eq_some_iff] at h

/-- A sentinel beneath some symbols, with whatever lies beneath it, adds to a search
from the symbols no more than the end of a sentence. -/
theorem sentinel_adds_only_end (g : Grammar) (entered : List String) (symbols : List Symbol)
    (beneath : List Pending) :
    (∀ order, Drains g entered (symbols.map .symbol) order ↔
      Drains g entered (symbols.map .symbol ++ .sentinel :: beneath) order) ∧
    (∀ order order' budget budget' e e',
      explore budget g entered (symbols.map .symbol) order = some e →
      explore budget' g entered (symbols.map .symbol ++ .sentinel :: beneath) order' = some e' →
        (∀ t, .token t ∈ e.findings ↔ .token t ∈ e'.findings) ∧ .endOfSentence ∉ e.findings) ∧
    (∀ beneath' order order' budget budget' e e',
      explore budget g entered (symbols.map .symbol ++ .sentinel :: beneath) order = some e →
      explore budget' g entered (symbols.map .symbol ++ .sentinel :: beneath') order' = some e' →
        ∀ candidate, candidate ∈ e.findings ↔ candidate ∈ e'.findings) ∧
    ∀ budget order order',
      (g.complete budget order entered).map Completion.candidates =
        g.continuations budget order' entered := by
  have habove : ∀ rest, above (symbols.map .symbol ++ .sentinel :: rest) = symbols :=
    fun rest => (Pending.above_append symbols _).trans (List.append_nil symbols)
  have hsymbols : above (symbols.map .symbol) = symbols := by
    have h := Pending.above_append symbols []
    rw [List.append_nil] at h
    exact h.trans (List.append_nil symbols)
  refine ⟨?_, ?_, ?_, candidates_eq_continuations⟩
  · intro order
    refine exists_congr fun budget => ?_
    rw [explore_isSome_atop order order budget _ (.sentinel :: beneath) rfl]
  · intro order order' budget budget' e e' h h'
    constructor
    · intro t
      rw [token_mem_findings_iff h, token_mem_findings_iff h', habove, hsymbols]
    · intro hend
      have hmem := ((endOfSentence_mem_findings_iff h).mp hend).1
      simp at hmem
  · intro beneath' order order' budget budget' e e' h h' candidate
    cases candidate with
    | token t => rw [token_mem_findings_iff h, token_mem_findings_iff h', habove, habove]
    | endOfSentence =>
        rw [endOfSentence_mem_findings_iff h, endOfSentence_mem_findings_iff h', habove, habove]
        simp

theorem sentinel_adds_only_end_optionals :
    ∃ e e' e'',
      explore 40 optionals ["x", "a"] [.symbol (.nonterminal "S")] .lifo = some e ∧
      explore 40 optionals ["x", "a"]
        [.symbol (.nonterminal "S"), .sentinel, .symbol (.terminal "b")] .fifo = some e' ∧
      explore 40 optionals ["x", "a"] [.symbol (.nonterminal "S"), .sentinel] .lifo = some e'' ∧
      ((∀ t, .token t ∈ e.findings ↔ .token t ∈ e'.findings) ∧ .endOfSentence ∉ e.findings) ∧
      (∀ candidate, candidate ∈ e'.findings ↔ candidate ∈ e''.findings) ∧
      .endOfSentence ∈ e'.findings := by
  obtain ⟨-, hadds, hbeneath, -⟩ := sentinel_adds_only_end optionals ["x", "a"]
    [.nonterminal "S"] [.symbol (.terminal "b")]
  have hplain : (explore 40 optionals ["x", "a"] [.symbol (.nonterminal "S")] .lifo).isSome := by
    decide +kernel
  have hmarked : (explore 40 optionals ["x", "a"]
      [.symbol (.nonterminal "S"), .sentinel, .symbol (.terminal "b")] .fifo).any
        (·.isSentence) := by
    decide +kernel
  have hbare : (explore 40 optionals ["x", "a"]
      [.symbol (.nonterminal "S"), .sentinel] .lifo).isSome := by
    decide +kernel
  obtain ⟨e, he⟩ := Option.isSome_iff_exists.mp hplain
  obtain ⟨e', he', hend⟩ := (Option.any_eq_true _ _).mp hmarked
  obtain ⟨e'', he''⟩ := Option.isSome_iff_exists.mp hbare
  exact ⟨e, e', e'', he, he', he'', hadds .lifo .fifo 40 40 e e' he he',
    hbeneath [] .fifo .lifo 40 40 e' e'' he' he'', Exploration.isSentence_iff.mp hend⟩

end SentenceGuide
