import SentenceGuide.Proofs.Composing
import SentenceGuide.Session

/-!
# One token more

A search for what follows some tokens is part of the search for what follows these
tokens and one more.  Each configuration of the shorter search is a configuration of
the longer one that has the new token still to match (`Configuration.awaiting`), and
what follows the one follows the other.  Only where the shorter search ends, at a
terminal that it offers, can the longer one go on.  So the shorter search drains if
the longer one does, and takes no more configurations (`Run.exists_shorter`).

A token that leads to no dead end was a candidate.  The other way round this needs
productive names, as what is left on the stack behind a candidate must derive
something.  Then viable tokens are no dead end, and a session that only picks
candidates keeps its tokens viable (`Session.Reliable`).
-/

namespace SentenceGuide

namespace Configuration

/-- The same derivation with one more token to match behind the others. -/
def awaiting (t : String) (c : Configuration) : Configuration :=
  ⟨c.pending, c.unmatched ++ [t]⟩

/-- Whatever follows a configuration follows it with one more token to match, and
more may follow then. -/
theorem exists_next_awaiting (g : Grammar) (t : String) :
    ∀ c : Configuration, ∃ more,
      (c.awaiting t).next g = (c.next g).map (awaiting t) ++ more
  | ⟨[], _⟩ => ⟨[], rfl⟩
  | ⟨.sentinel :: _, _⟩ => ⟨[], rfl⟩
  | ⟨.symbol (.terminal _) :: _, []⟩ => ⟨_, rfl⟩
  | ⟨.symbol (.terminal u) :: rest, token :: unmatched⟩ => by
      refine ⟨[], ?_⟩
      rw [List.append_nil]
      by_cases h : token = u
      · simp [awaiting, next, h]
      · simp [awaiting, next, h]
  | ⟨.symbol (.nonterminal name) :: rest, unmatched⟩ => by
      refine ⟨[], ?_⟩
      rw [List.append_nil, next, List.map_map]
      rfl

end Configuration

open SentenceGuide.Configuration (awaiting)

/-! ## The shorter search -/

/-- A run that holds at least some configurations with one more token to match takes
at least as many as a run from these without it. -/
theorem Run.exists_shorter {g : Grammar} {t : String} {held' : Multiset Configuration}
    {taken' : List Configuration} (h : Run g held' taken') :
    ∀ held, held.map (awaiting t) ≤ held' →
      ∃ taken, Run g held taken ∧ taken.length ≤ taken'.length := by
  induction h with
  | drained =>
      intro held hle
      rw [Multiset.le_zero, Multiset.map_eq_zero] at hle
      rw [hle]
      exact ⟨[], .drained, Nat.le_refl _⟩
  | @take held' taken' d _ ih =>
      intro held hle
      by_cases hmem : d ∈ held.map (awaiting t)
      · -- The shorter run takes the same configuration.
        obtain ⟨c, hc, rfl⟩ := Multiset.mem_map.mp hmem
        obtain ⟨rest, rfl⟩ := Multiset.exists_cons_of_mem hc
        rw [Multiset.map_cons, Multiset.cons_le_cons_iff] at hle
        obtain ⟨more, hnext⟩ := c.exists_next_awaiting g t
        have hput : (↑(c.next g) + rest).map (awaiting t) ≤
            (↑((awaiting t c).next g) + held' : Multiset Configuration) := by
          rw [Multiset.map_add, Multiset.map_coe, hnext, ← Multiset.coe_add]
          exact add_le_add (Multiset.le_add_right _ _) hle
        obtain ⟨taken, hrun, hlength⟩ := ih _ hput
        exact ⟨c :: taken, .take c hrun, Nat.succ_le_succ hlength⟩
      · -- The shorter run has nothing to take here.
        have hrest := (Multiset.le_cons_of_notMem hmem).mp hle
        obtain ⟨taken, hrun, hlength⟩ := ih held (hrest.trans (Multiset.le_add_left _ _))
        exact ⟨taken, hrun, Nat.le_succ_of_le hlength⟩

/-- A search with one token less drains within the same budget, and takes no more. -/
theorem exists_explore_shorter {g : Grammar} {entered : List String} {t : String}
    {seed : List Pending} {budget : Nat} {order order' : Order} {e' : Exploration}
    (h : explore budget g (entered ++ [t]) seed order' = some e') :
    ∃ e, explore budget g entered seed order = some e ∧ e.takes ≤ e'.takes := by
  obtain ⟨-, -, hrun', hbudget⟩ := run_of_explore h
  have hseed : ({.initial seed entered} : Multiset Configuration).map (awaiting t) ≤
      {.initial seed (entered ++ [t])} := by
    rw [Multiset.map_singleton]
    exact le_refl _
  obtain ⟨taken, hrun, hlength⟩ := hrun'.exists_shorter _ hseed
  have hsome : (explore budget g entered seed order).isSome :=
    explore_isSome_iff.mpr ⟨taken, hrun, hlength.trans hbudget⟩
  obtain ⟨e, he⟩ := Option.isSome_iff_exists.mp hsome
  obtain ⟨-, -, hrun'', -⟩ := run_of_explore he
  refine ⟨e, he, ?_⟩
  rw [Exploration.takes, Exploration.takes, (hrun''.perm hrun).length_eq]
  exact hlength

/-! ## Dead ends -/

namespace Grammar

variable {g : Grammar} {entered : List String} {t : String} {budget budget' : Nat}
  {order order' : Order} {c c' : Completion}

theorem viable_of_not_isDeadEnd (h : g.complete budget order entered = some c)
    (hdead : c.isDeadEnd = false) : g.Viable entered := by
  rcases isDeadEnd_eq_false_iff.mp hdead with hcomplete | ⟨t, ht⟩
  · exact viable_of_mem_language ((isComplete_iff_mem_language h).mp hcomplete)
  · exact ((mem_candidates_iff_viable h).mp ht).of_concat

theorem not_isDeadEnd_of_viable (hproductive : ∀ name, g.Reachable name → g.Productive name)
    (h : g.complete budget order entered = some c) (hviable : g.Viable entered) :
    c.isDeadEnd = false := by
  apply isDeadEnd_eq_false_iff.mpr
  rcases hviable.mem_language_or hproductive with hsentence | ⟨t, ht⟩
  · exact .inl ((isComplete_iff_mem_language h).mpr hsentence)
  · exact .inr ⟨t, (mem_candidates_iff_viable h).mpr ht⟩

theorem complete_of_le (h : g.complete budget order entered = some c) (hle : budget ≤ budget') :
    g.complete budget' order entered = some c := by
  obtain ⟨e, he, rfl⟩ := exists_explore_of_complete h
  exact complete_of_seek (explore_mono he hle)

end Grammar

/-! ## Sessions of picks -/

namespace Session

/-- The session after the candidates at some places have been picked, one after the
other. -/
def afterPicks (budget : Nat) (s : Session) : List Nat → Option Session
  | [] => some s
  | place :: places =>
      (s.step budget (.pick place)).bind fun next => next.1.afterPicks budget places

/-- A session on a grammar whose tokens are viable. -/
structure Reliable (g : Grammar) (s : Session) : Prop where
  /-- The session is about the grammar. -/
  grammar_eq : s.grammar = g
  /-- Some derivation begins with its tokens. -/
  viable : g.Viable s.tokens

variable {g : Grammar} {s s' : Session} {note : Note} {budget budget' place : Nat}

theorem reliable_begin (g : Grammar) : Reliable g (.begin g) := ⟨rfl, g.viable_nil⟩

theorem step_pick_some {c : Completion} {token : String} (h : s.completion budget = some c)
    (ht : c.candidates[place]? = some token) :
    s.step budget (.pick place) =
      some (⟨s.tokens ++ [token], s.grammar, s.order⟩, .text token) := by
  simp [step, h, ht]

theorem step_pick_none {c : Completion} (h : s.completion budget = some c)
    (ht : c.candidates[place]? = none) : s.step budget (.pick place) = some (s, .nothing) := by
  simp [step, h, ht]

theorem completion_of_le {c : Completion} (h : s.completion budget = some c)
    (hle : budget ≤ budget') : s.completion budget' = some c :=
  Grammar.complete_of_le h hle

/-- Where a completion is found, picking goes through, and a larger budget does not
change what it does. -/
theorem exists_step_pick {c : Completion} (h : s.completion budget = some c) (place : Nat) :
    ∃ next note, ∀ budget', budget ≤ budget' →
      s.step budget' (.pick place) = some (next, note) := by
  cases ht : c.candidates[place]? with
  | none => exact ⟨_, _, fun _ hle => step_pick_none (completion_of_le h hle) ht⟩
  | some token => exact ⟨_, _, fun _ hle => step_pick_some (completion_of_le h hle) ht⟩

theorem Reliable.exists_completion (hs : Reliable g s)
    (hdrains : ∀ entered, Drains g entered [.symbol g.startSymbol, .sentinel] .lifo) :
    ∃ budget c, s.completion budget = some c := by
  have hseek : Drains g s.tokens [.symbol g.startSymbol, .sentinel] s.order :=
    drains_iff_exists_run.mpr (drains_iff_exists_run.mp (hdrains s.tokens))
  obtain ⟨budget, hsome⟩ := hseek
  obtain ⟨e, he⟩ := Option.isSome_iff_exists.mp hsome
  refine ⟨budget, e.completion, ?_⟩
  rw [completion, hs.grammar_eq]
  exact Grammar.complete_of_seek he

/-- Picking a candidate keeps the tokens viable. -/
theorem Reliable.pick (hs : Reliable g s) (h : s.step budget (.pick place) = some (s', note)) :
    Reliable g s' := by
  obtain ⟨hgrammar, hviable⟩ := hs
  cases hc : s.completion budget with
  | none =>
      rw [step, hc] at h
      cases h
  | some c =>
      cases ht : c.candidates[place]? with
      | none =>
          rw [step_pick_none hc ht] at h
          cases h
          exact ⟨hgrammar, hviable⟩
      | some token =>
          rw [step_pick_some hc ht] at h
          cases h
          rw [completion, hgrammar] at hc
          exact ⟨hgrammar, (Grammar.mem_candidates_iff_viable hc).mp (List.mem_of_getElem? ht)⟩

/-- Whatever candidates are picked, the tokens stay viable. -/
theorem Reliable.afterPicks {places : List Nat} (hs : Reliable g s)
    (h : s.afterPicks budget places = some s') : Reliable g s' := by
  induction places generalizing s with
  | nil =>
      cases h
      exact hs
  | cons place places ih =>
      obtain ⟨⟨next, note⟩, hstep, hrest⟩ := Option.bind_eq_some_iff.mp h
      exact ih (hs.pick hstep) hrest

/-- If all searches drain, candidates can be picked at any places, within any budget
that is large enough. -/
theorem Reliable.exists_afterPicks
    (hdrains : ∀ entered, Drains g entered [.symbol g.startSymbol, .sentinel] .lifo)
    (places : List Nat) (hs : Reliable g s) :
    ∃ budget s', ∀ budget', budget ≤ budget' → s.afterPicks budget' places = some s' := by
  induction places generalizing s with
  | nil => exact ⟨0, s, fun _ _ => rfl⟩
  | cons place places ih =>
      obtain ⟨first, c, hc⟩ := hs.exists_completion hdrains
      obtain ⟨next, note, hstep⟩ := exists_step_pick hc place
      obtain ⟨second, s', hrest⟩ := ih (hs.pick (hstep first (Nat.le_refl first)))
      refine ⟨max first second, s', ?_⟩
      intro budget' hle
      rw [Session.afterPicks, hstep budget' (Nat.le_trans (Nat.le_max_left first second) hle),
        Option.bind_some]
      exact hrest budget' (Nat.le_trans (Nat.le_max_right first second) hle)

end Session

/-! ## Candidates and dead ends -/

/-- If the search for a completion of some tokens and one more drains, so does the
one without the last token, and takes no more configurations.  The last token is a
candidate then unless the longer tokens are a dead end.  If all names that can be
reached are productive, candidates lead to no dead end, so where the searches drain
a session in which candidates are picked, whichever they are, can always be asked
for more and is never at a dead end. -/
theorem candidates_lead_on (g : Grammar) :
    (∀ entered t budget order order' e', g.seek budget order' (entered ++ [t]) = some e' →
      ∃ e, g.seek budget order entered = some e ∧ e.takes ≤ e'.takes) ∧
    (∀ entered t budget budget' order order' c c', g.complete budget order entered = some c →
      g.complete budget' order' (entered ++ [t]) = some c' →
        c'.isDeadEnd = false → t ∈ c.candidates) ∧
    ((∀ name, g.Reachable name → g.Productive name) →
      (∀ entered t budget budget' order order' c c', g.complete budget order entered = some c →
        g.complete budget' order' (entered ++ [t]) = some c' →
          t ∈ c.candidates → c'.isDeadEnd = false) ∧
      ((∀ entered, Drains g entered [.symbol g.startSymbol, .sentinel] .lifo) →
        ∀ places, ∃ budget s c, (Session.begin g).afterPicks budget places = some s ∧
          s.completion budget = some c ∧ c.isDeadEnd = false)) := by
  refine ⟨?_, ?_, ?_⟩
  · intro entered t budget order order' e' h
    exact exists_explore_shorter h
  · intro entered t budget budget' order order' c c' h h' hdead
    exact (Grammar.mem_candidates_iff_viable h).mpr (Grammar.viable_of_not_isDeadEnd h' hdead)
  · intro hproductive
    constructor
    · intro entered t budget budget' order order' c c' h h' ht
      exact Grammar.not_isDeadEnd_of_viable hproductive h'
        ((Grammar.mem_candidates_iff_viable h).mp ht)
    · intro hdrains places
      obtain ⟨first, s, hpicks⟩ := (Session.reliable_begin g).exists_afterPicks hdrains places
      have hs := (Session.reliable_begin g).afterPicks (hpicks first (Nat.le_refl first))
      obtain ⟨second, c, hc⟩ := hs.exists_completion hdrains
      have hlarge := Session.completion_of_le hc (Nat.le_max_right first second)
      refine ⟨max first second, s, c, hpicks _ (Nat.le_max_left first second), hlarge, ?_⟩
      rw [Session.completion, hs.grammar_eq] at hlarge
      exact Grammar.not_isDeadEnd_of_viable hproductive hlarge hs.viable

theorem candidates_lead_on_brackets :
    (∃ e e', Grammar.brackets.seek 20 .fifo (["("] ++ ["x"]) = some e' ∧
      Grammar.brackets.seek 20 .lifo ["("] = some e ∧ e.takes ≤ e'.takes) ∧
    (∃ c c', Grammar.brackets.complete 20 .lifo ["("] = some c ∧
      Grammar.brackets.complete 20 .fifo (["("] ++ ["x"]) = some c' ∧
        c'.isDeadEnd = false ∧ "x" ∈ c.candidates) ∧
    (∀ name, Grammar.brackets.Reachable name → Grammar.brackets.Productive name) ∧
    (∀ entered, Drains Grammar.brackets entered
      [.symbol Grammar.brackets.startSymbol, .sentinel] .lifo) ∧
    ∃ budget s c, (Session.begin Grammar.brackets).afterPicks budget [0, 7, 2] = some s ∧
      s.completion budget = some c ∧ c.isDeadEnd = false := by
  obtain ⟨hshorter, hcandidate, hproductive⟩ := candidates_lead_on Grammar.brackets
  obtain ⟨hlead, hpicks⟩ := hproductive Grammar.brackets_productive
  have hlong : (Grammar.brackets.seek 20 .fifo (["("] ++ ["x"])).isSome := by decide +kernel
  obtain ⟨e', he'⟩ := Option.isSome_iff_exists.mp hlong
  obtain ⟨e, he, hle⟩ := hshorter ["("] "x" 20 .lifo .fifo e' he'
  have hc := Grammar.complete_of_seek he
  have hc' := Grammar.complete_of_seek he'
  have hdead : e'.completion.isDeadEnd = false := by
    have hoffered : (Grammar.brackets.complete 20 .fifo (["("] ++ ["x"])).map
        Completion.isDeadEnd = some false := by decide +kernel
    rw [hc'] at hoffered
    exact Option.some.inj hoffered
  have hx : "x" ∈ e.completion.candidates := hcandidate _ _ _ _ _ _ _ _ hc hc' hdead
  exact ⟨⟨e, e', he', he, hle⟩,
    ⟨e.completion, e'.completion, hc, hc', hlead _ _ _ _ _ _ _ _ hc hc' hx, hx⟩,
    Grammar.brackets_productive, drains_brackets, hpicks drains_brackets [0, 7, 2]⟩

end SentenceGuide
