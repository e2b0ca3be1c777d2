import Mathlib.Data.List.Perm.Subperm
import SentenceGuide.Proofs.Language

/-!
# Viable tokens

Tokens are viable if some derivation begins with them.  A completion of any tokens
offers those that keep them viable, so the tokens are a dead end just if they are no
sentence and no token keeps them viable.  Where all names are productive, viable
tokens are no dead end.
-/

namespace SentenceGuide

namespace Grammar

variable {g : Grammar} {tokens rest : List String} {t : String} {budget : Nat} {order : Order}
  {entered : List String} {c : Completion} {e : Exploration}

/-! ## Viable tokens -/

/-- Tokens that some derivation begins with. -/
def Viable (g : Grammar) (tokens : List String) : Prop :=
  ∃ left, g.Reads [g.startSymbol] tokens left

theorem viable_iff_exists_derives :
    g.Viable tokens ↔ ∃ rest, g.Derives [g.startSymbol] (tokens.map .terminal ++ rest) :=
  exists_reads_iff_exists_derives

theorem viable_nil (g : Grammar) : g.Viable [] := ⟨_, .done _⟩

theorem viable_concat_iff :
    g.Viable (tokens ++ [t]) ↔ ∃ left, g.Reads [g.startSymbol] tokens (.terminal t :: left) := by
  constructor
  · rintro ⟨left, h⟩
    obtain ⟨left, htokens, -⟩ := h.before_token
    exact ⟨left, htokens⟩
  · rintro ⟨left, h⟩
    exact ⟨left, h.trans (.token t (.done left))⟩

theorem viable_concat_iff_exists_derives :
    g.Viable (tokens ++ [t]) ↔
      ∃ rest, g.Derives [g.startSymbol] (tokens.map .terminal ++ .terminal t :: rest) := by
  rw [viable_iff_exists_derives, List.map_append]
  simp only [List.append_assoc, List.map_singleton, List.singleton_append]

theorem Viable.of_concat (h : g.Viable (tokens ++ [t])) : g.Viable tokens := by
  obtain ⟨left, h⟩ := viable_concat_iff.mp h
  exact ⟨_, h⟩

/-- Viable tokens are viable from the front on. -/
theorem Viable.concat_of_append (h : g.Viable (tokens ++ t :: rest)) :
    g.Viable (tokens ++ [t]) := by
  obtain ⟨left, h⟩ := h
  obtain ⟨left, htokens, -⟩ := h.before_token
  exact viable_concat_iff.mpr ⟨left, htokens⟩

theorem viable_of_mem_language (h : tokens ∈ g.language) : g.Viable tokens :=
  ⟨[], mem_language_iff.mp h⟩

/-- If all names are productive, viable tokens are a sentence or can go on. -/
theorem Viable.mem_language_or (hproductive : ∀ name, g.Reachable name → g.Productive name)
    (h : g.Viable tokens) : tokens ∈ g.language ∨ ∃ t, g.Viable (tokens ++ [t]) := by
  obtain ⟨left, hreads⟩ := h
  have hleft : ∀ name, .nonterminal name ∈ left → g.Productive name := by
    intro name hname
    refine hproductive name (hreads.reachable ?_ name hname)
    intro name hname
    cases List.mem_singleton.mp hname
    exact .start
  obtain ⟨after, hafter⟩ := exists_reads_of_productive left hleft
  have hsentence := hreads.trans hafter
  cases after with
  | nil =>
      rw [List.append_nil] at hsentence
      exact .inl (mem_language_iff.mpr hsentence)
  | cons t after => exact .inr ⟨t, Viable.concat_of_append ⟨[], hsentence⟩⟩

/-! ## Completions of viable tokens -/

theorem complete_of_seek (h : g.seek budget order entered = some e) :
    g.complete budget order entered = some e.completion :=
  Option.map_eq_some_iff.mpr ⟨e, h, rfl⟩

theorem mem_candidates_iff_viable (h : g.complete budget order entered = some c) :
    t ∈ c.candidates ↔ g.Viable (entered ++ [t]) :=
  (mem_candidates_iff h).trans viable_concat_iff.symm

theorem isComplete_iff_mem_language (h : g.complete budget order entered = some c) :
    c.isComplete = true ↔ entered ∈ g.language :=
  (isComplete_iff_reads h).trans mem_language_iff.symm

theorem isDeadEnd_iff (h : g.complete budget order entered = some c) :
    c.isDeadEnd = true ↔ entered ∉ g.language ∧ ∀ t, ¬ g.Viable (entered ++ [t]) := by
  rw [← Bool.not_eq_false, isDeadEnd_eq_false_iff, isComplete_iff_mem_language h, not_or,
    not_exists]
  simp only [mem_candidates_iff_viable h]

theorem candidates_nodup (h : g.complete budget order entered = some c) :
    c.candidates.Nodup := by
  obtain ⟨e, -, rfl⟩ := exists_explore_of_complete h
  refine (Text.Vocabulary.pairwise_ofList _).imp ?_
  rintro a b hlt rfl
  exact String.lt_irrefl a hlt

theorem candidates_subset_terminals (h : g.complete budget order entered = some c) :
    c.candidates ⊆ g.terminals := by
  intro t ht
  obtain ⟨left, hreads⟩ := (mem_candidates_iff h).mp ht
  refine hreads.mem_terminals ?_ t List.mem_cons_self
  intro u hu
  cases List.mem_singleton.mp hu

/-- There are no more candidates than terminals. -/
theorem length_candidates_le (h : g.complete budget order entered = some c) :
    c.candidates.length ≤ g.terminals.length :=
  ((candidates_nodup h).subperm (candidates_subset_terminals h)).length_le

end Grammar

end SentenceGuide
