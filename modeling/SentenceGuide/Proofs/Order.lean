import Mathlib.Data.List.Sort
import SentenceGuide.Completion
import SentenceGuide.Proofs.Draining

/-!
# Removal order is immaterial

Two bags drain together or not at all, for both drain just if there is a run from
the seed.  If they drain they took the same configurations, each as often, and
everything that is read off a search depends on no more than that.  In the end
everything that was put in has been taken out.
-/

namespace SentenceGuide

namespace Exploration

variable {e e' : Exploration}

/-! ## What does not depend on the order -/

theorem findings_perm (h : e.taken.Perm e'.taken) : e.findings.Perm e'.findings :=
  h.filterMap Configuration.found

theorem tokens_ext (h : ∀ t, t ∈ e.tokens ↔ t ∈ e'.tokens) : e.tokens = e'.tokens := by
  apply List.Pairwise.eq_of_mem_iff (r := (· < ·)) (Text.Vocabulary.pairwise_ofList _)
    (Text.Vocabulary.pairwise_ofList _)
  intro t
  exact h t

theorem tokens_eq_of_findings (h : ∀ t, .token t ∈ e.findings ↔ .token t ∈ e'.findings) :
    e.tokens = e'.tokens :=
  tokens_ext fun t => mem_tokens_iff.trans ((h t).trans mem_tokens_iff.symm)

theorem tokens_eq_of_perm (h : e.taken.Perm e'.taken) : e.tokens = e'.tokens :=
  tokens_eq_of_findings fun _ => (findings_perm h).mem_iff

theorem isSentence_eq_of_perm (h : e.taken.Perm e'.taken) : e.isSentence = e'.isSentence := by
  rw [Bool.eq_iff_iff, isSentence_iff, isSentence_iff]
  exact (findings_perm h).mem_iff

theorem completion_eq_of_perm (h : e.taken.Perm e'.taken) : e.completion = e'.completion := by
  rw [completion, completion, tokens_eq_of_perm h, isSentence_eq_of_perm h]

/-- Everything that was put in has been taken out. -/
theorem puts_eq_takes {c : Configuration} (h : Run e.grammar {c} e.taken) :
    e.puts = e.takes := by
  have hcard := h.foldl_add_card 1
  rw [Multiset.card_singleton, Nat.add_comm 1] at hcard
  exact Nat.succ_inj.mp hcard

end Exploration

/-! ## Two bags -/

section Bags

variable {ω κ : Type} [Worklist ω Configuration] [Worklist.Bag ω] [Worklist κ Configuration]
  [Worklist.Bag κ] {g : Grammar} {budget budget' : Nat} {entered : List String}
  {seed : List Pending} {e e' : Exploration}

theorem exploreIn_isSome_eq :
    (exploreIn ω budget g entered seed).isSome = (exploreIn κ budget g entered seed).isSome := by
  rw [Bool.eq_iff_iff, exploreIn_isSome_iff, exploreIn_isSome_iff]

theorem taken_perm (h : exploreIn ω budget g entered seed = some e)
    (h' : exploreIn κ budget' g entered seed = some e') : e.taken.Perm e'.taken := by
  obtain ⟨-, -, hrun, -⟩ := run_of_exploreIn h
  obtain ⟨-, -, hrun', -⟩ := run_of_exploreIn h'
  exact hrun.perm hrun'

theorem puts_eq_takes_of_exploreIn (h : exploreIn ω budget g entered seed = some e) :
    e.puts = e.takes := by
  obtain ⟨rfl, -, hrun, -⟩ := run_of_exploreIn h
  exact Exploration.puts_eq_takes hrun

end Bags

/-! ## Two orders -/

theorem explore_isSome_eq (budget : Nat) (g : Grammar) (entered : List String)
    (seed : List Pending) (order order' : Order) :
    (explore budget g entered seed order).isSome =
      (explore budget g entered seed order').isSome := by
  rw [Bool.eq_iff_iff, explore_isSome_iff, explore_isSome_iff]

/-- What two searches give is the same if they drain together and it is the same where
they drain. -/
theorem map_eq_map_of_isSome_eq {α β : Type} {first second : Option α} {f f' : α → β}
    (hsome : first.isSome = second.isSome)
    (h : ∀ e e', first = some e → second = some e' → f e = f' e') :
    first.map f = second.map f' := by
  cases hfirst : first with
  | none =>
      rw [hfirst, Option.isSome_none, eq_comm, Option.isSome_eq_false_iff,
        Option.isNone_iff_eq_none] at hsome
      rw [hsome, Option.map_none, Option.map_none]
  | some e =>
      rw [hfirst, Option.isSome_some] at hsome
      obtain ⟨e', hsecond⟩ := Option.isSome_iff_exists.mp hsome.symm
      rw [hsecond, Option.map_some, Option.map_some, h e e' hfirst hsecond]

/-- A search in one order gives the completion that a search in another gives,
within every budget. -/
theorem explore_completion_eq (budget : Nat) (g : Grammar) (entered : List String)
    (seed : List Pending) (order order' : Order) :
    (explore budget g entered seed order).map Exploration.completion =
      (explore budget g entered seed order').map Exploration.completion := by
  apply map_eq_map_of_isSome_eq (explore_isSome_eq budget g entered seed order order')
  intro e e' h h'
  obtain ⟨-, -, hrun, -⟩ := run_of_explore h
  obtain ⟨-, -, hrun', -⟩ := run_of_explore h'
  exact Exploration.completion_eq_of_perm (hrun.perm hrun')

theorem explore_tokens_eq (budget : Nat) (g : Grammar) (entered : List String)
    (seed : List Pending) (order order' : Order) :
    (explore budget g entered seed order).map Exploration.tokens =
      (explore budget g entered seed order').map Exploration.tokens := by
  have h := congrArg (Option.map Completion.candidates)
    (explore_completion_eq budget g entered seed order order')
  rwa [Option.map_map, Option.map_map] at h

/-- Searches with two bags drain together, find the same and put in and take out
equally often.  Stacks and queues are bags, so completions and continuations do
not depend on the order. -/
theorem order_immaterial (ω κ : Type) [Worklist ω Configuration] [Worklist.Bag ω]
    [Worklist κ Configuration] [Worklist.Bag κ] (g : Grammar) (entered : List String)
    (seed : List Pending) :
    (DrainsIn ω g entered seed ↔ DrainsIn κ g entered seed) ∧
    (∀ budget budget' e e', exploreIn ω budget g entered seed = some e →
      exploreIn κ budget' g entered seed = some e' →
        (∀ candidate, candidate ∈ e.findings ↔ candidate ∈ e'.findings) ∧
          e.puts = e'.puts ∧ e.takes = e'.takes ∧ e.puts = e.takes) ∧
    (Worklist.Bag (Stack Configuration) ∧ Worklist.Bag (Queue Configuration)) ∧
    ∀ budget order order',
      g.continuations budget order entered = g.continuations budget order' entered ∧
        g.complete budget order entered = g.complete budget order' entered := by
  refine ⟨?_, ?_, ⟨inferInstance, inferInstance⟩, ?_⟩
  · exact exists_congr fun budget => by rw [exploreIn_isSome_eq (κ := κ)]
  · intro budget budget' e e' h h'
    have hperm := taken_perm h h'
    have hputs := puts_eq_takes_of_exploreIn h
    have hputs' := puts_eq_takes_of_exploreIn h'
    have htakes : e.takes = e'.takes := hperm.length_eq
    refine ⟨fun candidate => (Exploration.findings_perm hperm).mem_iff, ?_, htakes, hputs⟩
    rw [hputs, hputs', htakes]
  · intro budget order order'
    exact ⟨explore_tokens_eq budget g entered _ order order', by
      rw [Grammar.complete, Grammar.complete]
      exact explore_completion_eq budget g entered _ order order'⟩

theorem order_immaterial_directions :
    ∃ e e', exploreIn (Stack Configuration) 10 directions ["go"]
        [.symbol directions.startSymbol, .sentinel] = some e ∧
      exploreIn (Queue Configuration) 10 directions ["go"]
        [.symbol directions.startSymbol, .sentinel] = some e' ∧
      (∀ candidate, candidate ∈ e.findings ↔ candidate ∈ e'.findings) ∧
      (e.puts = e'.puts ∧ e.takes = e'.takes ∧ e.puts = e.takes) ∧
      directions.continuations 10 .lifo ["go"] = directions.continuations 10 .fifo ["go"] ∧
      directions.complete 10 .lifo ["go"] = directions.complete 10 .fifo ["go"] := by
  obtain ⟨-, hsame, -, hanswers⟩ := order_immaterial (Stack Configuration)
    (Queue Configuration) directions ["go"] [.symbol directions.startSymbol, .sentinel]
  have hstack : (exploreIn (Stack Configuration) 10 directions ["go"]
      [.symbol directions.startSymbol, .sentinel]).isSome := by decide +kernel
  have hqueue : (exploreIn (Queue Configuration) 10 directions ["go"]
      [.symbol directions.startSymbol, .sentinel]).isSome := by decide +kernel
  obtain ⟨e, he⟩ := Option.isSome_iff_exists.mp hstack
  obtain ⟨e', he'⟩ := Option.isSome_iff_exists.mp hqueue
  obtain ⟨hfindings, hcounts⟩ := hsame 10 10 e e' he he'
  exact ⟨e, e', he, he', hfindings, hcounts, hanswers 10 .lifo .fifo⟩

end SentenceGuide
