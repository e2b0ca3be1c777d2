import SentenceGuide.Completion
import SentenceGuide.Proofs.Findings

/-!
# Completions and the language

A completion says whether the tokens entered are in the language of the grammar,
and this needs nothing of the grammar.  That its candidates are the tokens that
sentences have next needs more, since the search offers a token without asking
whether what is left on the stack derives anything.  It is so if every name that
can be reached from the start is productive: then whatever is left on a stack
derives some tokens, which complete the sentence.
-/

namespace SentenceGuide

namespace Grammar

/-! ## Productive names -/

/-- The names that occur in what the start name derives, through right-hand sides
of any kind. -/
inductive Reachable (g : Grammar) : String → Prop where
  | start : Reachable g g.start
  | rhs {p : Production} {name : String} : p ∈ g.productions → Reachable g p.lhs →
      .nonterminal name ∈ p.rhs → Reachable g name

/-- A name that derives some tokens. -/
def Productive (g : Grammar) (name : String) : Prop :=
  ∃ tokens : List String, g.Derives [.nonterminal name] (tokens.map .terminal)

variable {g : Grammar} {stack left : List Symbol} {tokens : List String}

/-- A reading leaves only names that can be reached, if it begins with such. -/
theorem Reads.reachable (h : g.Reads stack tokens left)
    (hstack : ∀ name, .nonterminal name ∈ stack → g.Reachable name) :
    ∀ name, .nonterminal name ∈ left → g.Reachable name := by
  induction h with
  | done stack => exact hstack
  | token t _ ih =>
      apply ih
      intro name hname
      exact hstack name (List.mem_cons_of_mem _ hname)
  | @expand stack left tokens p hp _ ih =>
      apply ih
      intro name hname
      rcases List.mem_append.mp hname with hname | hname
      · exact .rhs hp (hstack p.lhs List.mem_cons_self) hname
      · exact hstack name (List.mem_cons_of_mem _ hname)

/-- A reading leaves only terminals of the grammar, if it begins with such. -/
theorem Reads.mem_terminals (h : g.Reads stack tokens left)
    (hstack : ∀ t, .terminal t ∈ stack → t ∈ g.terminals) :
    ∀ t, .terminal t ∈ left → t ∈ g.terminals := by
  induction h with
  | done stack => exact hstack
  | token t _ ih =>
      apply ih
      intro u hu
      exact hstack u (List.mem_cons_of_mem _ hu)
  | @expand stack left tokens p hp _ ih =>
      apply ih
      intro t ht
      rcases List.mem_append.mp ht with ht | ht
      · exact Grammar.mem_terminals.mpr ⟨p, hp, ht⟩
      · exact hstack t (List.mem_cons_of_mem _ ht)

/-- A stack of terminals and productive names can be read off. -/
theorem exists_reads_of_productive :
    ∀ stack : List Symbol, (∀ name, .nonterminal name ∈ stack → g.Productive name) →
      ∃ tokens, g.Reads stack tokens []
  | [], _ => ⟨[], .done []⟩
  | s :: stack, h => by
      obtain ⟨tokens, hreads⟩ := exists_reads_of_productive stack
        (fun name hname => h name (List.mem_cons_of_mem s hname))
      cases s with
      | terminal t => exact ⟨t :: tokens, .token t hreads⟩
      | nonterminal name =>
          obtain ⟨first, hfirst⟩ := h name List.mem_cons_self
          exact ⟨first ++ tokens, ((reads_nil_iff_derives.mpr hfirst).append stack).trans hreads⟩

/-- A reading comes to each of its tokens. -/
theorem Reads.before_token {before after : List String} {t : String}
    (h : g.Reads stack (before ++ t :: after) left) :
    ∃ rest, g.Reads stack before (.terminal t :: rest) ∧ g.Reads rest after left := by
  generalize htokens : before ++ t :: after = tokens at h
  induction h generalizing before with
  | done stack => exact absurd htokens (by simp)
  | @token stack left tokens u h ih =>
      cases before with
      | nil =>
          obtain ⟨rfl, rfl⟩ := List.cons.inj htokens
          exact ⟨stack, .done _, h⟩
      | cons v before =>
          obtain ⟨rfl, hrest⟩ := List.cons.inj htokens
          obtain ⟨rest, hbefore, hafter⟩ := ih hrest
          exact ⟨rest, .token v hbefore, hafter⟩
  | expand hp _ ih =>
      obtain ⟨rest, hbefore, hafter⟩ := ih htokens
      exact ⟨rest, .expand hp hbefore, hafter⟩

/-- If all names are productive, a token that can come to the top is the next one
of some sentence. -/
theorem exists_reads_terminal_iff_exists_sentence
    (hproductive : ∀ name, g.Reachable name → g.Productive name) {t : String} :
    (∃ rest, g.Reads [g.startSymbol] tokens (.terminal t :: rest)) ↔
      ∃ sentence ∈ g.language, tokens ++ [t] <+: sentence := by
  constructor
  · rintro ⟨rest, h⟩
    have hstart : ∀ name, .nonterminal name ∈ [g.startSymbol] → g.Reachable name := by
      intro name hname
      cases List.mem_singleton.mp hname
      exact .start
    have hrest : ∀ name, .nonterminal name ∈ rest → g.Productive name := by
      intro name hname
      exact hproductive name (h.reachable hstart name (List.mem_cons_of_mem _ hname))
    -- What is left on the stack derives some tokens, and these complete the sentence.
    obtain ⟨after, hafter⟩ := exists_reads_of_productive rest hrest
    refine ⟨tokens ++ t :: after, mem_language_iff.mpr (h.trans (.token t hafter)), after, ?_⟩
    rw [List.append_assoc, List.singleton_append]
  · rintro ⟨sentence, hsentence, after, rfl⟩
    rw [mem_language_iff, List.append_assoc, List.singleton_append] at hsentence
    obtain ⟨rest, hrest, -⟩ := hsentence.before_token
    exact ⟨rest, hrest⟩

/-! ## Completions -/

variable {budget : Nat} {order : Order} {entered : List String} {c : Completion}

theorem exists_explore_of_complete (h : g.complete budget order entered = some c) :
    ∃ e, explore budget g entered [.symbol g.startSymbol, .sentinel] order = some e ∧
      e.completion = c :=
  Option.map_eq_some_iff.mp h

theorem mem_candidates_iff (h : g.complete budget order entered = some c) {t : String} :
    t ∈ c.candidates ↔ ∃ rest, g.Reads [g.startSymbol] entered (.terminal t :: rest) := by
  obtain ⟨e, he, rfl⟩ := exists_explore_of_complete h
  exact Exploration.mem_tokens_iff.trans (token_mem_findings_iff he)

theorem isComplete_iff_reads (h : g.complete budget order entered = some c) :
    c.isComplete = true ↔ g.Reads [g.startSymbol] entered [] := by
  obtain ⟨e, he, rfl⟩ := exists_explore_of_complete h
  refine (Exploration.isSentence_iff.trans (endOfSentence_mem_findings_iff he)).trans ?_
  exact and_iff_right (by simp)

/-- Tokens are no dead end if they are a sentence or can go on. -/
theorem isDeadEnd_eq_false_iff :
    c.isDeadEnd = false ↔ c.isComplete = true ∨ ∃ t, t ∈ c.candidates := by
  obtain ⟨candidates, isComplete⟩ := c
  cases isComplete <;> cases candidates <;> simp [Completion.isDeadEnd]

/-- Some sentence begins with the tokens just if they are one or some sentence
has a token next. -/
theorem exists_sentence_iff :
    (∃ sentence ∈ g.language, tokens <+: sentence) ↔
      tokens ∈ g.language ∨ ∃ t, ∃ sentence ∈ g.language, tokens ++ [t] <+: sentence := by
  constructor
  · rintro ⟨sentence, hsentence, after, rfl⟩
    cases after with
    | nil => exact .inl (by rwa [List.append_nil] at hsentence)
    | cons t after => exact .inr ⟨t, _, hsentence, after, by simp⟩
  · rintro (h | ⟨t, sentence, hsentence, hprefix⟩)
    · exact ⟨tokens, h, List.prefix_refl tokens⟩
    · exact ⟨sentence, hsentence, (List.prefix_append tokens [t]).trans hprefix⟩

/-- A completion decides the language.  If all names that can be reached are
productive, it offers the tokens that sentences have next, and a dead end is where
no sentence goes on. -/
theorem complete_decides_language (h : g.complete budget order entered = some c) :
    (c.isComplete = true ↔ entered ∈ g.language) ∧
    ((∀ name, g.Reachable name → g.Productive name) →
      (∀ t, t ∈ c.candidates ↔ ∃ sentence ∈ g.language, entered ++ [t] <+: sentence) ∧
      (c.isDeadEnd = true ↔ ¬ ∃ sentence ∈ g.language, entered <+: sentence)) := by
  have hcomplete : c.isComplete = true ↔ entered ∈ g.language :=
    (isComplete_iff_reads h).trans mem_language_iff.symm
  refine ⟨hcomplete, ?_⟩
  intro hproductive
  have hcandidates : ∀ t, t ∈ c.candidates ↔
      ∃ sentence ∈ g.language, entered ++ [t] <+: sentence := by
    intro t
    rw [mem_candidates_iff h, exists_reads_terminal_iff_exists_sentence hproductive]
  refine ⟨hcandidates, ?_⟩
  rw [exists_sentence_iff, ← hcomplete, ← exists_congr hcandidates, ← isDeadEnd_eq_false_iff,
    Bool.not_eq_false]

/-- `S` is `x` or nothing, in any number of brackets. -/
def brackets : Grammar :=
  .ofProductions "S"
    [⟨"S", [.terminal "(", .nonterminal "S", .terminal ")"]⟩, ⟨"S", [.nonterminal "A"]⟩,
      ⟨"A", []⟩, ⟨"A", [.terminal "x"]⟩]

theorem brackets_productive (name : String) (h : brackets.Reachable name) :
    brackets.Productive name := by
  have hA : brackets.Reads [.nonterminal "A"] [] [] :=
    .expand (p := ⟨"A", []⟩) (by decide) (.done [])
  have hS : brackets.Reads [.nonterminal "S"] [] [] :=
    .expand (p := ⟨"S", [.nonterminal "A"]⟩) (by decide) hA
  have hname : name = "S" ∨ name = "A" := by
    induction h with
    | start => exact .inl rfl
    | rhs hp _ hmem _ =>
        simp only [brackets, productions_ofProductions, List.mem_cons, List.not_mem_nil,
          or_false] at hp
        rcases hp with rfl | rfl | rfl | rfl <;> simp at hmem
        · exact .inl hmem
        · exact .inr hmem
  rcases hname with rfl | rfl
  · exact ⟨[], reads_nil_iff_derives.mp hS⟩
  · exact ⟨[], reads_nil_iff_derives.mp hA⟩

theorem complete_brackets :
    ∃ c, brackets.complete 20 .lifo ["(", "("] = some c ∧
      (∀ name, brackets.Reachable name → brackets.Productive name) ∧
      (c.isComplete = true ↔ ["(", "("] ∈ brackets.language) ∧
      (∀ t, t ∈ c.candidates ↔ ∃ sentence ∈ brackets.language, ["(", "(", t] <+: sentence) ∧
      (c.isDeadEnd = true ↔ ¬ ∃ sentence ∈ brackets.language, ["(", "("] <+: sentence) := by
  have hdrains : (brackets.complete 20 .lifo ["(", "("]).isSome := by decide +kernel
  obtain ⟨c, hc⟩ := Option.isSome_iff_exists.mp hdrains
  obtain ⟨hcomplete, hproductive⟩ := complete_decides_language hc
  obtain ⟨hcandidates, hdead⟩ := hproductive brackets_productive
  exact ⟨c, hc, brackets_productive, hcomplete, hcandidates, hdead⟩

end Grammar

end SentenceGuide
