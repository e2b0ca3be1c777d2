import SentenceGuide.Proofs.Picks
import SentenceGuide.Proofs.Termination
import SentenceGuide.Proofs.Viable

/-!
# What the composer can give

A run of the composer picks tokens until it ends (`Composes`).  The tokens picked
are always viable.  It ends at a dead end, at a sentence where stopping is picked,
or where a token is picked for which there is no room (`ComposingEnds`).

Whatever tokens are viable can be picked one by one, since some word picks each of
the candidates, and some word picks to stop.  So what some script of words makes the
composer give are all the ends behind viable tokens for which there is room
(`exists_gives_iff`).

This takes searches that drain, without which a run need not end, and no more
terminals than there are words to pick them with.  A grammar that is held in memory
has fewer of them.
-/

namespace SentenceGuide

open Grammar (Viable)

/-! ## Runs of the composer -/

/-- A run of the composer behind some tokens, with one case for each of its ends and
one for a token that is picked. -/
inductive Composes (g : Grammar) (budget limit : Nat) :
    List String → Words → Nat → Composition → Prop where
  /-- Nothing can follow. -/
  | deadEnd {tokens : List String} {words : Words} {room : Nat} {e : Exploration} :
      g.seek budget .lifo tokens = some e → e.completion.isDeadEnd = true →
        Composes g budget limit tokens words room
          ⟨.error (.deadEnd tokens), [], e.diagnostics, words⟩
  /-- Stopping is picked. -/
  | stop {tokens : List String} {words words' : Words} {room pick : Nat} {e : Exploration} :
      g.seek budget .lifo tokens = some e → e.completion.isDeadEnd = false →
        words.pick e.completion.choices = (pick, words') →
        e.completion.candidates[pick]? = none →
        Composes g budget limit tokens words room
          ⟨.ok tokens, [e.completion.choices], e.diagnostics, words'⟩
  /-- A token is picked, but there is no room for it. -/
  | full {tokens : List String} {words words' : Words} {pick : Nat} {e : Exploration}
      {t : String} :
      g.seek budget .lifo tokens = some e → e.completion.isDeadEnd = false →
        words.pick e.completion.choices = (pick, words') →
        e.completion.candidates[pick]? = some t →
        Composes g budget limit tokens words 0
          ⟨.error (.tokenLimit limit), [e.completion.choices], e.diagnostics, words'⟩
  /-- A token is picked, and the run goes on behind it. -/
  | pick {tokens : List String} {words words' : Words} {room pick : Nat} {e : Exploration}
      {t : String} {c : Composition} :
      g.seek budget .lifo tokens = some e → e.completion.isDeadEnd = false →
        words.pick e.completion.choices = (pick, words') →
        e.completion.candidates[pick]? = some t →
        Composes g budget limit (tokens ++ [t]) words' room c →
        Composes g budget limit tokens words (room + 1)
          (c.behind e.completion.choices
            (e.diagnostics ++ [.picked t e.completion.choices]))

variable {g : Grammar} {budget budget' limit room : Nat} {tokens : List String} {words : Words}
  {c : Composition} {outcome : Except ComposeFault (List String)}

theorem composes_of_composeFrom :
    composeFrom g budget limit tokens words room = some c →
      Composes g budget limit tokens words room c := by
  fun_induction composeFrom g budget limit tokens words room generalizing c with
  | case1 room tokens words hseek => nofun
  | case2 room tokens words e hseek completion =>
      intro h
      cases h
      exact .deadEnd hseek ‹_›
  | case3 room tokens words e hseek completion =>
      rename_i hdead i words' hpick hstop
      intro h
      cases h
      exact .stop hseek (Bool.eq_false_iff.mpr hdead) hpick hstop
  | case4 tokens words e hseek completion =>
      rename_i hdead i words' hpick t ht
      intro h
      cases h
      exact .full hseek (Bool.eq_false_iff.mpr hdead) hpick ht
  | case5 tokens words e hseek completion =>
      rename_i hdead i words' hpick t ht room ih
      intro h
      obtain ⟨c, hc, rfl⟩ := Option.map_eq_some_iff.mp h
      exact .pick hseek (Bool.eq_false_iff.mpr hdead) hpick ht (ih hc)

theorem Composes.composeFrom_eq (h : Composes g budget limit tokens words room c) :
    composeFrom g budget limit tokens words room = some c := by
  induction h with
  | deadEnd hseek hdead =>
      rw [composeFrom, hseek]
      simp only [hdead, if_true]
  | stop hseek hdead hpick hstop =>
      rw [composeFrom, hseek]
      simp only [hdead, Bool.false_eq_true, if_false, hpick, hstop]
  | full hseek hdead hpick ht =>
      rw [composeFrom, hseek]
      simp only [hdead, Bool.false_eq_true, if_false, hpick, ht]
  | pick hseek hdead hpick ht _ ih =>
      rw [composeFrom, hseek]
      simp only [hdead, Bool.false_eq_true, if_false, hpick, ht, ih, Option.map_some]

theorem composeFrom_eq_some_iff :
    composeFrom g budget limit tokens words room = some c ↔
      Composes g budget limit tokens words room c :=
  ⟨composes_of_composeFrom, Composes.composeFrom_eq⟩

/-- A larger budget does not change a run. -/
theorem Composes.mono (h : Composes g budget limit tokens words room c)
    (hle : budget ≤ budget') : Composes g budget' limit tokens words room c := by
  induction h with
  | deadEnd hseek hdead => exact .deadEnd (explore_mono hseek hle) hdead
  | stop hseek hdead hpick hstop => exact .stop (explore_mono hseek hle) hdead hpick hstop
  | full hseek hdead hpick ht => exact .full (explore_mono hseek hle) hdead hpick ht
  | pick hseek hdead hpick ht _ ih => exact .pick (explore_mono hseek hle) hdead hpick ht ih

/-! ## How runs end -/

/-- How a run can end behind some tokens with room for some more. -/
inductive ComposingEnds (g : Grammar) (limit : Nat) :
    Nat → List String → Except ComposeFault (List String) → Prop where
  /-- At a dead end. -/
  | deadEnd {room : Nat} {tokens : List String} :
      tokens ∉ g.language → (∀ t, ¬ Viable g (tokens ++ [t])) →
        ComposingEnds g limit room tokens (.error (.deadEnd tokens))
  /-- At a sentence. -/
  | stop {room : Nat} {tokens : List String} :
      tokens ∈ g.language → ComposingEnds g limit room tokens (.ok tokens)
  /-- Without room for one more token. -/
  | full {tokens : List String} {t : String} :
      Viable g (tokens ++ [t]) → ComposingEnds g limit 0 tokens (.error (.tokenLimit limit))

theorem choices_pos {c : Completion} (h : c.isDeadEnd = false) : 0 < c.choices := by
  obtain ⟨candidates, isComplete⟩ := c
  cases isComplete <;> cases candidates <;> simp_all [Completion.isDeadEnd, Completion.choices]

/-- A choice is the place of a candidate, or the one behind all of them for a sentence. -/
theorem lt_choices_iff {c : Completion} {i : Nat} :
    i < c.choices ↔
      i < c.candidates.length ∨ i = c.candidates.length ∧ c.isComplete = true := by
  rw [Completion.choices]
  cases c.isComplete with
  | true =>
      simp only [reduceIte, and_true]
      exact Nat.lt_succ_iff_lt_or_eq
  | false => simp only [Bool.false_eq_true, reduceIte, Nat.add_zero, and_false, or_false]

/-- A pick that is no candidate is the choice to stop, which a sentence has. -/
theorem isComplete_of_pick {c : Completion} {words' : Words} {pick : Nat}
    (hdead : c.isDeadEnd = false) (hpick : words.pick c.choices = (pick, words'))
    (hstop : c.candidates[pick]? = none) : c.isComplete = true := by
  have hlt := Words.pick_lt (choices_pos hdead) words
  rw [hpick, lt_choices_iff] at hlt
  rw [List.getElem?_eq_none_iff] at hstop
  exact (hlt.resolve_left (Nat.not_lt.mpr hstop)).2

/-- A run picks viable tokens, and then it ends. -/
theorem Composes.exists_ends (h : Composes g budget limit tokens words room c)
    (hviable : Viable g tokens) :
    ∃ picked left, room = picked.length + left ∧ Viable g (tokens ++ picked) ∧
      ComposingEnds g limit left (tokens ++ picked) c.outcome := by
  induction h with
  | @deadEnd tokens words room e hseek hdead =>
      obtain ⟨hsentence, hnext⟩ := (Grammar.isDeadEnd_iff (Grammar.complete_of_seek hseek)).mp hdead
      refine ⟨[], room, (Nat.zero_add room).symm, ?_, ?_⟩
      · rwa [List.append_nil]
      · rw [List.append_nil]
        exact .deadEnd hsentence hnext
  | @stop tokens words words' room pick e hseek hdead hpick hstop =>
      have hcomplete := isComplete_of_pick hdead hpick hstop
      rw [Grammar.isComplete_iff_mem_language (Grammar.complete_of_seek hseek)] at hcomplete
      refine ⟨[], room, (Nat.zero_add room).symm, ?_, ?_⟩
      · rwa [List.append_nil]
      · rw [List.append_nil]
        exact .stop hcomplete
  | @full tokens words words' pick e t hseek hdead hpick ht =>
      have hnext := (Grammar.mem_candidates_iff_viable (Grammar.complete_of_seek hseek)).mp
        (List.mem_of_getElem? ht)
      refine ⟨[], 0, rfl, ?_, ?_⟩
      · rwa [List.append_nil]
      · rw [List.append_nil]
        exact .full hnext
  | @pick tokens words words' room pick e t c hseek hdead hpick ht _ ih =>
      have hnext := (Grammar.mem_candidates_iff_viable (Grammar.complete_of_seek hseek)).mp
        (List.mem_of_getElem? ht)
      obtain ⟨picked, left, rfl, hpicked, hends⟩ := ih hnext
      rw [List.append_assoc, List.singleton_append] at hpicked hends
      refine ⟨t :: picked, left, ?_, hpicked, hends⟩
      rw [List.length_cons, Nat.add_right_comm]

/-! ## Scripts that drive a run -/

section Driven

variable (hdrains : ∀ entered, Drains g entered [.symbol g.startSymbol, .sentinel] .lifo)
  (hterminals : g.terminals.length < UInt64.size)

include hdrains in
theorem exists_seek (tokens : List String) : ∃ budget e, g.seek budget .lifo tokens = some e := by
  obtain ⟨budget, h⟩ := hdrains tokens
  exact ⟨budget, Option.isSome_iff_exists.mp h⟩

include hdrains in
/-- Every run ends, whatever the words are. -/
theorem exists_composes (limit room : Nat) (tokens : List String) (words : Words) :
    ∃ budget c, Composes g budget limit tokens words room c := by
  obtain ⟨budget, e, hseek⟩ := exists_seek hdrains tokens
  cases hdead : e.completion.isDeadEnd with
  | true => exact ⟨budget, _, .deadEnd hseek hdead⟩
  | false =>
      cases ht : e.completion.candidates[(words.pick e.completion.choices).1]? with
      | none => exact ⟨budget, _, .stop hseek hdead rfl ht⟩
      | some t =>
          cases room with
          | zero => exact ⟨budget, _, .full hseek hdead rfl ht⟩
          | succ room =>
              obtain ⟨budget', c, hc⟩ := exists_composes limit room (tokens ++ [t])
                (words.pick e.completion.choices).2
              have hseek' : g.seek (max budget budget') .lifo tokens = some e :=
                explore_mono hseek (Nat.le_max_left ..)
              exact ⟨_, _, .pick hseek' hdead rfl ht (hc.mono (Nat.le_max_right ..))⟩

theorem choices_le_length_terminals {e : Exploration}
    (hseek : g.seek budget .lifo tokens = some e) :
    e.completion.choices ≤ g.terminals.length + 1 := by
  have hle := Grammar.length_candidates_le (Grammar.complete_of_seek hseek)
  rw [Completion.choices]
  split <;> omega

include hterminals in
theorem choices_le {e : Exploration} (hseek : g.seek budget .lifo tokens = some e) :
    e.completion.choices ≤ UInt64.size :=
  Nat.le_trans (choices_le_length_terminals hseek) hterminals

include hterminals in
/-- Some word picks a token that can follow. -/
theorem exists_pick_token {e : Exploration} {t : String}
    (hseek : g.seek budget .lifo tokens = some e) (hviable : Viable g (tokens ++ [t])) :
    e.completion.isDeadEnd = false ∧
      ∃ w i, e.completion.candidates[i]? = some t ∧ ∀ script drawn,
        (Words.mk (w :: script) drawn).pick e.completion.choices = (i, ⟨script, drawn + 1⟩) := by
  have hcomplete := Grammar.complete_of_seek hseek
  have hmem := (Grammar.mem_candidates_iff_viable hcomplete).mpr hviable
  obtain ⟨i, hi⟩ := List.mem_iff_getElem?.mp hmem
  have hlt : i < e.completion.choices :=
    lt_choices_iff.mpr (.inl (List.getElem?_eq_some_iff.mp hi).1)
  obtain ⟨w, hw⟩ := Words.exists_pick_eq (choices_le hterminals hseek) hlt
  exact ⟨Grammar.isDeadEnd_eq_false_iff.mpr (.inr ⟨t, hmem⟩), w, i, hi, hw⟩

include hdrains hterminals

/-- Every end is come to with some script. -/
theorem ComposingEnds.exists_composes (h : ComposingEnds g limit room tokens outcome) :
    ∃ budget script, ∀ drawn, ∃ c,
      Composes g budget limit tokens ⟨script, drawn⟩ room c ∧ c.outcome = outcome := by
  obtain ⟨budget, e, hseek⟩ := exists_seek hdrains tokens
  have hcomplete := Grammar.complete_of_seek hseek
  cases h with
  | deadEnd hsentence hnext =>
      have hdead := (Grammar.isDeadEnd_iff hcomplete).mpr ⟨hsentence, hnext⟩
      exact ⟨budget, [], fun drawn => ⟨_, .deadEnd hseek hdead, rfl⟩⟩
  | stop hsentence =>
      have hisComplete := (Grammar.isComplete_iff_mem_language hcomplete).mpr hsentence
      have hdead := Grammar.isDeadEnd_eq_false_iff.mpr (.inl hisComplete)
      -- Stopping is the choice behind all candidates.
      have hlt : e.completion.candidates.length < e.completion.choices :=
        lt_choices_iff.mpr (.inr ⟨rfl, hisComplete⟩)
      obtain ⟨w, hw⟩ := Words.exists_pick_eq (choices_le hterminals hseek) hlt
      exact ⟨budget, [w], fun drawn =>
        ⟨_, .stop hseek hdead (hw [] drawn) (List.getElem?_eq_none (Nat.le_refl _)), rfl⟩⟩
  | full hviable =>
      obtain ⟨hdead, w, i, hi, hw⟩ := exists_pick_token hterminals hseek hviable
      exact ⟨budget, [w], fun drawn => ⟨_, .full hseek hdead (hw [] drawn) hi, rfl⟩⟩

/-- Viable tokens can be picked one by one up to an end. -/
theorem exists_composes_of_viable {picked : List String} (hviable : Viable g (tokens ++ picked))
    (hends : ComposingEnds g limit room (tokens ++ picked) outcome) :
    ∃ budget script, ∀ drawn, ∃ c,
      Composes g budget limit tokens ⟨script, drawn⟩ (picked.length + room) c ∧
        c.outcome = outcome := by
  induction picked generalizing tokens with
  | nil =>
      rw [List.append_nil] at hends
      rw [List.length_nil, Nat.zero_add]
      exact hends.exists_composes hdrains hterminals
  | cons t picked ih =>
      have hnext : Viable g (tokens ++ [t]) := hviable.concat_of_append
      rw [List.append_cons] at hviable hends
      obtain ⟨budget, script, hrest⟩ := ih hviable hends
      obtain ⟨budget', e, hseek⟩ := exists_seek hdrains tokens
      obtain ⟨hdead, w, i, hi, hw⟩ := exists_pick_token hterminals hseek hnext
      refine ⟨max budget budget', w :: script, fun drawn => ?_⟩
      obtain ⟨c, hc, houtcome⟩ := hrest (drawn + 1)
      have hseek' : g.seek (max budget budget') .lifo tokens = some e :=
        explore_mono hseek (Nat.le_max_right ..)
      rw [List.length_cons, Nat.add_right_comm]
      exact ⟨_, .pick hseek' hdead (hw script drawn) hi (hc.mono (Nat.le_max_left ..)), houtcome⟩

end Driven

/-! ## What composing can give -/

/-- Composing with a script of words, and zeros behind it, comes to an outcome. -/
def Grammar.Gives (g : Grammar) (limit : Nat) (script : List UInt64)
    (outcome : Except ComposeFault (List String)) : Prop :=
  ∃ budget c, g.compose budget limit ⟨script, 0⟩ = some c ∧ c.outcome = outcome

theorem Grammar.Gives.exists_ends {script : List UInt64} (h : g.Gives limit script outcome) :
    ∃ tokens left, limit = tokens.length + left ∧ Viable g tokens ∧
      ComposingEnds g limit left tokens outcome := by
  obtain ⟨budget, c, hc, rfl⟩ := h
  exact (composeFrom_eq_some_iff.mp hc).exists_ends g.viable_nil

/-- A script makes the composer give one outcome at most. -/
theorem Grammar.Gives.unique {script : List UInt64} {outcome' : Except ComposeFault (List String)}
    (h : g.Gives limit script outcome) (h' : g.Gives limit script outcome') :
    outcome = outcome' := by
  obtain ⟨budget, c, hc, rfl⟩ := h
  obtain ⟨budget', c', hc', rfl⟩ := h'
  have hrun := (composeFrom_eq_some_iff.mp hc).mono (Nat.le_max_left budget budget')
  have hrun' := (composeFrom_eq_some_iff.mp hc').mono (Nat.le_max_right budget budget')
  have heq := hrun.composeFrom_eq.symm.trans hrun'.composeFrom_eq
  rw [Option.some.inj heq]

/-- Every script makes the composer give one outcome. -/
theorem Grammar.existsUnique_gives
    (hdrains : ∀ entered, Drains g entered [.symbol g.startSymbol, .sentinel] .lifo)
    (limit : Nat) (script : List UInt64) : ∃! outcome, g.Gives limit script outcome := by
  obtain ⟨budget, c, hc⟩ := exists_composes hdrains limit limit [] ⟨script, 0⟩
  have hgives : g.Gives limit script c.outcome := ⟨budget, c, hc.composeFrom_eq, rfl⟩
  exact ⟨c.outcome, hgives, fun _ h => h.unique hgives⟩

/-- If all names are productive, no script makes the composer come to a dead end. -/
theorem Grammar.not_gives_deadEnd
    (hproductive : ∀ name, g.Reachable name → g.Productive name) (script : List UInt64)
    (ts : List String) : ¬ g.Gives limit script (.error (.deadEnd ts)) := by
  intro h
  obtain ⟨tokens, left, -, hviable, hends⟩ := h.exists_ends
  cases hends with
  | deadEnd hsentence hnext =>
      rcases hviable.mem_language_or hproductive with hmem | ⟨t, ht⟩
      · exact hsentence hmem
      · exact hnext t ht

section Exact

-- A pick draws words of 64 bits and counts its choices in 64 bits.
variable (hdrains : ∀ entered, Drains g entered [.symbol g.startSymbol, .sentinel] .lifo)
  (hterminals : g.terminals.length < UInt64.size)

include hdrains hterminals

/-- What some script makes the composer give are the ends behind viable tokens for
which there is room. -/
theorem exists_gives_iff :
    (∃ script, g.Gives limit script outcome) ↔
      ∃ tokens left, limit = tokens.length + left ∧ Viable g tokens ∧
        ComposingEnds g limit left tokens outcome := by
  constructor
  · rintro ⟨script, h⟩
    exact h.exists_ends
  · rintro ⟨tokens, left, hlimit, hviable, hends⟩
    rw [← List.nil_append tokens] at hviable hends
    obtain ⟨budget, script, hscript⟩ :=
      exists_composes_of_viable hdrains hterminals hviable hends
    obtain ⟨c, hc, houtcome⟩ := hscript 0
    rw [← hlimit] at hc
    exact ⟨script, budget, c, hc.composeFrom_eq, houtcome⟩

/-- Every dead end within the limit is come to. -/
theorem exists_gives_deadEnd_iff {ts : List String} :
    (∃ script, g.Gives limit script (.error (.deadEnd ts))) ↔
      ts.length ≤ limit ∧ Viable g ts ∧ ts ∉ g.language ∧ ¬ ∃ t, Viable g (ts ++ [t]) := by
  rw [exists_gives_iff hdrains hterminals, not_exists]
  constructor
  · rintro ⟨tokens, left, rfl, hviable, hends⟩
    cases hends with
    | deadEnd hsentence hnext => exact ⟨Nat.le_add_right _ _, hviable, hsentence, hnext⟩
  · rintro ⟨hle, hviable, hsentence, hnext⟩
    obtain ⟨left, rfl⟩ := Nat.exists_eq_add_of_le hle
    exact ⟨ts, left, rfl, hviable, .deadEnd hsentence hnext⟩

/-- The limit is come to if there are viable tokens beyond it. -/
theorem exists_gives_tokenLimit_iff {n : Nat} :
    (∃ script, g.Gives limit script (.error (.tokenLimit n))) ↔
      n = limit ∧ ∃ u : List String, u.length = limit + 1 ∧ Viable g u := by
  rw [exists_gives_iff hdrains hterminals]
  constructor
  · rintro ⟨tokens, left, rfl, -, hends⟩
    cases hends with
    | @full _ t hnext => exact ⟨rfl, tokens ++ [t], List.length_append, hnext⟩
  · rintro ⟨rfl, u, hlength, hviable⟩
    rcases List.eq_nil_or_concat u with rfl | ⟨tokens, t, rfl⟩
    · cases hlength
    · rw [List.concat_eq_append] at hviable hlength
      rw [List.length_append, List.length_singleton, Nat.succ_inj] at hlength
      exact ⟨tokens, 0, hlength.symm, hviable.of_concat, .full hviable⟩

end Exact

theorem exposes_brackets {name other : String} (h : Grammar.brackets.Exposes name other) :
    name = "S" ∧ other = "A" := by
  obtain ⟨p, hp, rfl, hsurfaces⟩ := h
  simp only [Grammar.brackets, Grammar.productions_ofProductions, List.mem_cons,
    List.not_mem_nil, or_false] at hp
  rcases hp with rfl | rfl | rfl | rfl
  · exact absurd hsurfaces Grammar.not_surfaces_terminal
  · rcases hsurfaces.of_cons with h | ⟨-, h⟩
    · cases h
      exact ⟨rfl, rfl⟩
    · exact absurd h Grammar.not_surfaces_nil
  · exact absurd hsurfaces Grammar.not_surfaces_nil
  · exact absurd hsurfaces Grammar.not_surfaces_terminal

theorem drains_brackets (entered : List String) :
    Drains Grammar.brackets entered
      [.symbol Grammar.brackets.startSymbol, .sentinel] .lifo := by
  refine drains_of_rank (fun name => if name = "S" then 1 else 0) ?_ entered _ .lifo
  intro name other h
  obtain ⟨rfl, rfl⟩ := exposes_brackets h
  decide

theorem length_terminals_brackets : Grammar.brackets.terminals.length < UInt64.size := by
  decide +kernel

/-- The sentences that the composer gives with some script are those of the language
that have no more tokens than the limit. -/
theorem composed_iff_mem_language
    (hdrains : ∀ entered, Drains g entered [.symbol g.startSymbol, .sentinel] .lifo)
    (hterminals : g.terminals.length < UInt64.size) (limit : Nat) (w : List String) :
    (∃ script, g.Gives limit script (.ok w)) ↔ w ∈ g.language ∧ w.length ≤ limit := by
  rw [exists_gives_iff hdrains hterminals]
  constructor
  · rintro ⟨tokens, left, rfl, -, hends⟩
    cases hends with
    | stop hsentence => exact ⟨hsentence, Nat.le_add_right _ _⟩
  · rintro ⟨hsentence, hle⟩
    obtain ⟨left, rfl⟩ := Nat.exists_eq_add_of_le hle
    exact ⟨w, left, rfl, Grammar.viable_of_mem_language hsentence, .stop hsentence⟩

theorem composed_brackets :
    (∀ entered, Drains Grammar.brackets entered
      [.symbol Grammar.brackets.startSymbol, .sentinel] .lifo) ∧
    Grammar.brackets.terminals.length < UInt64.size ∧
    ∃ script, Grammar.brackets.Gives 3 script (.ok ["(", "x", ")"]) := by
  have hreads : Grammar.brackets.Reads [Grammar.brackets.startSymbol] ["(", "x", ")"] [] := by
    refine .expand (p := ⟨"S", [.terminal "(", .nonterminal "S", .terminal ")"]⟩) (by decide) ?_
    refine .token "(" (.expand (p := ⟨"S", [.nonterminal "A"]⟩) (by decide) ?_)
    refine .expand (p := ⟨"A", [.terminal "x"]⟩) (by decide) ?_
    exact .token "x" (.token ")" (.done []))
  refine ⟨drains_brackets, length_terminals_brackets, ?_⟩
  exact (composed_iff_mem_language drains_brackets length_terminals_brackets 3 _).mpr
    ⟨Grammar.mem_language_iff.mpr hreads, by decide⟩

/-- The composer gives one outcome with each script.  It comes to a dead end with
some script just at viable tokens within the limit that are no sentence and cannot go
on, and to its limit just if some derivation begins with one token more.  If all names
are productive it never comes to a dead end. -/
theorem composer_faults_iff
    (hdrains : ∀ entered, Drains g entered [.symbol g.startSymbol, .sentinel] .lifo)
    (hterminals : g.terminals.length < UInt64.size) (limit : Nat) :
    (∀ script, ∃! outcome, g.Gives limit script outcome) ∧
    (∀ ts, (∃ script, g.Gives limit script (.error (.deadEnd ts))) ↔
      ts.length ≤ limit ∧ (∃ rest, g.Derives [g.startSymbol] (ts.map .terminal ++ rest)) ∧
        ts ∉ g.language ∧
        ¬ ∃ t rest, g.Derives [g.startSymbol] (ts.map .terminal ++ .terminal t :: rest)) ∧
    (∀ n, (∃ script, g.Gives limit script (.error (.tokenLimit n))) ↔
      n = limit ∧ ∃ (u : List String) (rest : List Symbol), u.length = limit + 1 ∧
        g.Derives [g.startSymbol] (u.map .terminal ++ rest)) ∧
    ((∀ name, g.Reachable name → g.Productive name) →
      ∀ script ts, ¬ g.Gives limit script (.error (.deadEnd ts))) := by
  refine ⟨Grammar.existsUnique_gives hdrains limit, fun ts => ?_, fun n => ?_,
    Grammar.not_gives_deadEnd⟩
  · rw [exists_gives_deadEnd_iff hdrains hterminals, ← Grammar.viable_iff_exists_derives]
    simp only [← Grammar.viable_concat_iff_exists_derives]
  · rw [exists_gives_tokenLimit_iff hdrains hterminals]
    simp only [Grammar.viable_iff_exists_derives, exists_and_left]

theorem composer_faults_brackets :
    (∀ entered, Drains Grammar.brackets entered
      [.symbol Grammar.brackets.startSymbol, .sentinel] .lifo) ∧
    Grammar.brackets.terminals.length < UInt64.size ∧
    (∀ name, Grammar.brackets.Reachable name → Grammar.brackets.Productive name) ∧
    (∀ script, ∃! outcome, Grammar.brackets.Gives 1 script outcome) ∧
    (∃ script, Grammar.brackets.Gives 1 script (.error (.tokenLimit 1))) ∧
    ∀ script ts, ¬ Grammar.brackets.Gives 1 script (.error (.deadEnd ts)) := by
  obtain ⟨hgives, -, hlimit, hnever⟩ :=
    composer_faults_iff drains_brackets length_terminals_brackets 1
  -- `( (` is one token beyond the limit, and closing both brackets makes a sentence of it.
  have hreads : Grammar.brackets.Reads [Grammar.brackets.startSymbol] ["(", "("]
      [.nonterminal "S", .terminal ")", .terminal ")"] := by
    refine .expand (p := ⟨"S", [.terminal "(", .nonterminal "S", .terminal ")"]⟩) (by decide) ?_
    refine .token "(" (.expand (p := ⟨"S", [.terminal "(", .nonterminal "S", .terminal ")"]⟩)
      (by decide) ?_)
    exact .token "(" (.done _)
  obtain ⟨rest, hrest⟩ := Grammar.viable_iff_exists_derives.mp ⟨_, hreads⟩
  exact ⟨drains_brackets, length_terminals_brackets, Grammar.brackets_productive, hgives,
    (hlimit 1).mpr ⟨rfl, ["(", "("], rest, rfl, hrest⟩, hnever Grammar.brackets_productive⟩

end SentenceGuide
