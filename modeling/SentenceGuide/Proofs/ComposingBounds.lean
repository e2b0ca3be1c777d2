import SentenceGuide.Proofs.Composing

/-!
# What composing takes

Composing asks once for what can follow with each number of tokens that it holds, from none
up to those it holds in the end, and these are no more than its limit.  It picks once each
time it asks, but for a dead end.  So the number of picks is told by the outcome.

A pick draws the words that it refuses and one more.  What a run leaves of the words is what
is left behind all of these (`Composes.words_eq`).  The zeros behind a script are never
refused, so no more words are refused than the script has.
-/

namespace SentenceGuide

namespace Words

variable {n : Nat} {ns : List Nat} {script : List UInt64}

/-! ## The words that picks draw -/

/-- The words of a script that a pick refuses before it accepts one. -/
def refused (n : Nat) (script : List UInt64) : List UInt64 :=
  script.takeWhile fun w => !accepts n w

/-- The words of a script that picks refuse, one pick after the other. -/
def refusedIn : List Nat → List UInt64 → List UInt64
  | [], _ => []
  | n :: ns, script =>
      refused n script ++ refusedIn ns (script.drop ((refused n script).length + 1))

/-- What is left of some words when some more have been drawn. -/
def after (words : Words) (count : Nat) : Words :=
  ⟨words.script.drop count, words.drawn + count⟩

theorem script_after (words : Words) (count : Nat) :
    (words.after count).script = words.script.drop count := rfl

theorem after_after (words : Words) (count more : Nat) :
    (words.after count).after more = words.after (count + more) := by
  rw [after, after, after, List.drop_drop, Nat.add_assoc]

/-- A pick draws the words that it refuses and the one that it accepts. -/
theorem pickFrom_snd (n : Nat) (script : List UInt64) :
    ∀ drawn, (pickFrom n drawn script).2 =
      (Words.mk script drawn).after ((refused n script).length + 1) := by
  induction script with
  | nil => exact fun drawn => rfl
  | cons w script ih =>
      intro drawn
      rw [pickFrom]
      cases haccepts : accepts n w with
      | true => simp [refused, haccepts, after]
      | false =>
          simp [refused, haccepts, after, ih]
          omega

theorem pick_snd (words : Words) (n : Nat) :
    (words.pick n).2 = words.after ((refused n words.script).length + 1) :=
  pickFrom_snd n words.script words.drawn

/-- All words that are refused come from the script, none of them twice. -/
theorem refusedIn_sublist (ns : List Nat) (script : List UInt64) :
    (refusedIn ns script).Sublist script := by
  induction ns generalizing script with
  | nil => exact List.nil_sublist script
  | cons n ns ih =>
      obtain ⟨rest, hrest⟩ : refused n script <+: script := List.takeWhile_prefix _
      rw [refusedIn]
      generalize refused n script = front at hrest ⊢
      subst hrest
      rw [List.drop_length_add_append]
      exact (List.Sublist.refl front).append ((ih _).trans (List.drop_sublist 1 rest))

end Words

/-! ## What a run tells of itself -/

/-- The token that was picked and taken, if a diagnostic tells of one. -/
def Diagnostic.pickedToken? : Diagnostic → Option String
  | .picked token _ => some token
  | _ => none

/-- With how many tokens it was asked what can follow, if a diagnostic tells of it. -/
def Diagnostic.askedWith? : Diagnostic → Option Nat
  | .completed entered _ _ => some entered
  | _ => none

namespace Composition

/-- The tokens that were picked and taken, in order. -/
def held (c : Composition) : List String := c.diagnostics.filterMap Diagnostic.pickedToken?

/-- The numbers of tokens with which it was asked what can follow, in order. -/
def asked (c : Composition) : List Nat := c.diagnostics.filterMap Diagnostic.askedWith?

end Composition

variable {g : Grammar} {budget limit room : Nat} {tokens : List String} {words : Words}
  {c : Composition} {e : Exploration}

theorem Exploration.expanded_of_mem_expansions {e : Exploration} {d : Diagnostic}
    {taken : List Configuration} (h : d ∈ taken.flatMap e.expansions) :
    ∃ name rhs consumed, d = .expanded name rhs consumed := by
  obtain ⟨c, -, hd⟩ := List.mem_flatMap.mp h
  rw [Exploration.expansions] at hd
  split at hd
  · obtain ⟨p, -, rfl⟩ := List.mem_map.mp hd
    exact ⟨_, _, _, rfl⟩
  · exact absurd hd List.not_mem_nil

/-- A search tells once with how many tokens it was asked, and of no token picked. -/
theorem Exploration.filterMap_diagnostics (e : Exploration) :
    e.diagnostics.filterMap Diagnostic.pickedToken? = [] ∧
      e.diagnostics.filterMap Diagnostic.askedWith? = [e.entered.length] := by
  have hnone {α : Type} {f : Diagnostic → Option α}
      (hf : ∀ name rhs consumed, f (.expanded name rhs consumed) = none) :
      (e.taken.flatMap e.expansions).filterMap f = [] := by
    rw [List.filterMap_eq_nil_iff]
    intro d hd
    obtain ⟨name, rhs, consumed, rfl⟩ := expanded_of_mem_expansions hd
    exact hf name rhs consumed
  rw [Exploration.diagnostics, List.filterMap_append, List.filterMap_append,
    hnone fun _ _ _ => rfl, hnone fun _ _ _ => rfl]
  exact ⟨rfl, rfl⟩

theorem Exploration.held_nil {outcome : Except ComposeFault (List String)} {picks : List Nat}
    (e : Exploration) (words : Words) :
    (Composition.mk outcome picks e.diagnostics words).held = [] :=
  e.filterMap_diagnostics.1

theorem asked_singleton {outcome : Except ComposeFault (List String)} {picks : List Nat}
    (hseek : g.seek budget .lifo tokens = some e) (words : Words) :
    (Composition.mk outcome picks e.diagnostics words).asked = [tokens.length] := by
  rw [Composition.asked, e.filterMap_diagnostics.2, (run_of_explore hseek).2.1]

theorem held_behind (c : Composition) (e : Exploration) (n : Nat) (t : String) :
    (c.behind n (e.diagnostics ++ [.picked t n])).held = t :: c.held := by
  rw [Composition.held, Composition.behind, List.filterMap_append, List.filterMap_append,
    e.filterMap_diagnostics.1]
  rfl

theorem asked_behind (hseek : g.seek budget .lifo tokens = some e) (c : Composition) (n : Nat)
    (t : String) :
    (c.behind n (e.diagnostics ++ [.picked t n])).asked = tokens.length :: c.asked := by
  rw [Composition.asked, Composition.behind, List.filterMap_append, List.filterMap_append,
    e.filterMap_diagnostics.2, (run_of_explore hseek).2.1]
  rfl

/-! ## What a run takes -/

/-- How an outcome behind some tokens, with room for some more, goes with the tokens that were
picked and taken and with the number of picks. -/
inductive Tally (limit : Nat) (tokens : List String) (room : Nat) (held : List String)
    (picks : Nat) : Except ComposeFault (List String) → Prop where
  /-- A sentence is made of the tokens, and stopping is one more pick. -/
  | sentence {w : List String} :
      w = tokens ++ held → picks = held.length + 1 → Tally limit tokens room held picks (.ok w)
  /-- All room is taken, and the token that is not taken is one more pick. -/
  | full :
      held.length = room → picks = room + 1 →
        Tally limit tokens room held picks (.error (.tokenLimit limit))
  /-- At a dead end there is no further pick. -/
  | deadEnd {ts : List String} :
      ts = tokens ++ held → picks = held.length →
        Tally limit tokens room held picks (.error (.deadEnd ts))

theorem Tally.pick {outcome : Except ComposeFault (List String)} {held : List String}
    {picks : Nat} {t : String} (h : Tally limit (tokens ++ [t]) room held picks outcome) :
    Tally limit tokens (room + 1) (t :: held) (picks + 1) outcome := by
  have hmoved : (tokens ++ [t]) ++ held = tokens ++ t :: held := List.append_assoc ..
  cases h with
  | sentence hw hpicks => exact .sentence (hw.trans hmoved) (congrArg Nat.succ hpicks)
  | full hheld hpicks => exact .full (congrArg Nat.succ hheld) (congrArg Nat.succ hpicks)
  | deadEnd hts hpicks => exact .deadEnd (hts.trans hmoved) (congrArg Nat.succ hpicks)

theorem Composes.tally (h : Composes g budget limit tokens words room c) :
    Tally limit tokens room c.held c.picks.length c.outcome := by
  induction h with
  | deadEnd =>
      rw [Exploration.held_nil]
      exact .deadEnd (List.append_nil _).symm rfl
  | stop =>
      rw [Exploration.held_nil]
      exact .sentence (List.append_nil _).symm rfl
  | full =>
      rw [Exploration.held_nil]
      exact .full rfl rfl
  | pick _ _ _ _ _ ih =>
      rw [held_behind]
      exact ih.pick

theorem Composes.length_held_le (h : Composes g budget limit tokens words room c) :
    c.held.length ≤ room := by
  induction h with
  | deadEnd | stop | full => rw [Exploration.held_nil]; exact Nat.zero_le _
  | pick _ _ _ _ _ ih =>
      rw [held_behind]
      exact Nat.succ_le_succ ih

theorem Composes.asked_eq (h : Composes g budget limit tokens words room c) :
    c.asked = List.range' tokens.length (c.held.length + 1) := by
  induction h with
  | deadEnd hseek | stop hseek | full hseek =>
      rw [Exploration.held_nil, asked_singleton hseek]
      rfl
  | pick hseek _ _ _ _ ih =>
      rw [held_behind, asked_behind hseek, ih, List.length_append, List.length_singleton,
        List.length_cons]
      exact List.range'_succ.symm

theorem Composes.picks_pos (h : Composes g budget limit tokens words room c) :
    ∀ n ∈ c.picks, 0 < n ∧ n ≤ g.terminals.length + 1 := by
  induction h with
  | deadEnd => exact fun n hn => absurd hn List.not_mem_nil
  | stop hseek hdead | full hseek hdead =>
      rw [List.forall_mem_singleton]
      exact ⟨choices_pos hdead, choices_le_length_terminals hseek⟩
  | pick hseek hdead _ _ _ ih =>
      rw [Composition.behind, List.forall_mem_cons]
      exact ⟨⟨choices_pos hdead, choices_le_length_terminals hseek⟩, ih⟩

/-- The words that one pick draws. -/
theorem words_of_pick {n pick : Nat} {words' : Words} (hpick : words.pick n = (pick, words')) :
    words' = words.after ((Words.refused n words.script).length + 1) := by
  rw [← Words.pick_snd, hpick]

theorem Composes.words_eq (h : Composes g budget limit tokens words room c) :
    c.words = words.after (c.picks.length + (Words.refusedIn c.picks words.script).length) := by
  induction h with
  | deadEnd => rfl
  | stop _ _ hpick | full _ _ hpick =>
      rw [Words.refusedIn, Words.refusedIn, List.append_nil, List.length_singleton, Nat.add_comm]
      exact words_of_pick hpick
  | @pick tokens words words' room pick e t c _ _ hpick _ _ ih =>
      rw [words_of_pick hpick] at ih
      rw [Words.script_after] at ih
      rw [Composition.behind, ih, Words.after_after, Words.refusedIn, List.length_append,
        List.length_cons]
      congr 1
      omega

/-- Composing ends with every limit and all words, if every search drains.  All of its picks
have choices, and no more of them than there are terminals and one.  It asks once what can
follow with each number of tokens from none up to those that it holds in the end, which are
within the limit.  A sentence takes one more pick than it has tokens, meeting the limit one
more than the limit, and a dead end as many as it has tokens.  The words drawn are as many as
the picks and the words that these refuse, and those refused are words of the script. -/
theorem composing_is_bounded
    (hdrains : ∀ entered, Drains g entered [.symbol g.startSymbol, .sentinel] .lifo)
    (limit : Nat) (words : Words) :
    ∃ budget c, (∀ budget', budget ≤ budget' → g.compose budget' limit words = some c) ∧
      (∀ n ∈ c.picks, 0 < n ∧ n ≤ g.terminals.length + 1) ∧
      (c.held.length ≤ limit ∧ c.asked = List.range (c.held.length + 1)) ∧
      ((∀ w, c.outcome = .ok w → w = c.held ∧ c.picks.length = w.length + 1) ∧
        (∀ n, c.outcome = .error (.tokenLimit n) →
          n = limit ∧ c.held.length = limit ∧ c.picks.length = limit + 1) ∧
        ∀ ts, c.outcome = .error (.deadEnd ts) → ts = c.held ∧ c.picks.length = ts.length) ∧
      c.words = words.after (c.picks.length + (Words.refusedIn c.picks words.script).length) ∧
      (Words.refusedIn c.picks words.script).length ≤ words.script.length := by
  obtain ⟨budget, c, hc⟩ := exists_composes hdrains limit limit [] words
  have htally := hc.tally
  refine ⟨budget, c, fun budget' hle => (hc.mono hle).composeFrom_eq, hc.picks_pos,
    ⟨hc.length_held_le, hc.asked_eq.trans List.range_eq_range'.symm⟩, ⟨?_, ?_, ?_⟩, hc.words_eq,
    (Words.refusedIn_sublist _ _).length_le⟩
  · intro w hw
    rw [hw] at htally
    cases htally with
    | sentence hheld hpicks => exact ⟨hheld, hheld ▸ hpicks⟩
  · intro n hn
    rw [hn] at htally
    cases htally with
    | full hheld hpicks => exact ⟨rfl, hheld, hpicks⟩
  · intro ts hts
    rw [hts] at htally
    cases htally with
    | deadEnd hheld hpicks => exact ⟨hheld, hheld ▸ hpicks⟩

/-- The first word is refused, the next one picks the first of three candidates, and a zero
behind the script picks one more, for which there is no room. -/
theorem composing_is_bounded_brackets :
    (∀ entered, Drains Grammar.brackets entered
      [.symbol Grammar.brackets.startSymbol, .sentinel] .lifo) ∧
    ∃ budget c, Grammar.brackets.compose budget 1 ⟨[0xFFFFFFFFFFFFFFFF, 0], 0⟩ = some c ∧
      c.held = ["("] ∧ c.asked = [0, 1] ∧ c.picks = [3, 3] ∧
      c.words = (Words.mk [0xFFFFFFFFFFFFFFFF, 0] 0).after 3 := by
  refine ⟨drains_brackets, ?_⟩
  obtain ⟨budget, c, hc, -, ⟨-, hasked⟩, -, hwords, -⟩ :=
    composing_is_bounded drains_brackets 1 ⟨[0xFFFFFFFFFFFFFFFF, 0], 0⟩
  have hrun : (Grammar.brackets.compose 40 1 ⟨[0xFFFFFFFFFFFFFFFF, 0], 0⟩).map
      (fun c => (c.held, c.picks)) = some (["("], [3, 3]) := by decide +kernel
  obtain ⟨c', hc', heq⟩ := Option.map_eq_some_iff.mp hrun
  -- A larger budget gives the same, so both runs are the same one.
  have hmore := ((composeFrom_eq_some_iff.mp hc').mono (Nat.le_max_right budget 40)).composeFrom_eq
  obtain rfl : c = c' := Option.some.inj ((hc _ (Nat.le_max_left budget 40)).symm.trans hmore)
  obtain ⟨hheld, hpicks⟩ := Prod.mk.inj heq
  have hrefused : Words.refusedIn [3, 3] [0xFFFFFFFFFFFFFFFF, 0] = [0xFFFFFFFFFFFFFFFF] := by
    decide +kernel
  rw [hheld] at hasked
  rw [hpicks, hrefused] at hwords
  exact ⟨40, c, hc', hheld, hasked, hpicks, hwords⟩

end SentenceGuide
