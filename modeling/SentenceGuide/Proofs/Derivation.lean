import Mathlib.Computability.Language
import Mathlib.Logic.Relation
import SentenceGuide.Grammar.Basic

/-!
# Derivations

A step of a derivation replaces a name, wherever it stands, by the right-hand
side of one of its productions.  A leftmost step replaces a name that has only
terminals before it.  A name without productions has no step, and a terminal has
none either, whatever its text.  The language of a grammar is the set of token
lists that its start symbol derives.

`Reads` is a leftmost derivation from the point of view of a stack.  It puts the
tokens aside as they come to the top and keeps what is still to be derived.  The
search follows it step by step, so everything about derivations is brought into
this form: a leftmost derivation of some tokens and a terminal behind them is a
reading of the tokens that has the terminal on top (`LeftDerives.reads`), and a
derivation of tokens alone, in whatever order, is a reading that leaves nothing
(`reads_nil_iff_derives`).
-/

namespace SentenceGuide.Grammar

open Relation (ReflTransGen)

/-! ## Steps -/

/-- A name is replaced by the right-hand side of one of its productions. -/
inductive Step (g : Grammar) : List Symbol → List Symbol → Prop where
  | replace {p : Production} (before after : List Symbol) (hp : p ∈ g.productions) :
      Step g (before ++ .nonterminal p.lhs :: after) (before ++ (p.rhs ++ after))

/-- A name behind terminals only is replaced. -/
inductive LeftStep (g : Grammar) : List Symbol → List Symbol → Prop where
  | replace {p : Production} (before : List String) (after : List Symbol)
      (hp : p ∈ g.productions) :
      LeftStep g (before.map .terminal ++ .nonterminal p.lhs :: after)
        (before.map .terminal ++ (p.rhs ++ after))

/-- Any number of steps, in any order. -/
def Derives (g : Grammar) : List Symbol → List Symbol → Prop := ReflTransGen g.Step

/-- Any number of leftmost steps. -/
def LeftDerives (g : Grammar) : List Symbol → List Symbol → Prop := ReflTransGen g.LeftStep

/-- The token lists that the start symbol derives. -/
def language (g : Grammar) : Language String :=
  {tokens | g.Derives [g.startSymbol] (tokens.map .terminal)}

/-- A leftmost derivation as a stack sees it: the tokens are read off the top,
and what is left over is still to be derived. -/
inductive Reads (g : Grammar) : List Symbol → List String → List Symbol → Prop where
  /-- Nothing more is read. -/
  | done (stack : List Symbol) : Reads g stack [] stack
  /-- The terminal on top is read. -/
  | token {stack left : List Symbol} {tokens : List String} (t : String) :
      Reads g stack tokens left → Reads g (.terminal t :: stack) (t :: tokens) left
  /-- The name on top is replaced. -/
  | expand {stack left : List Symbol} {tokens : List String} {p : Production} :
      p ∈ g.productions → Reads g (p.rhs ++ stack) tokens left →
        Reads g (.nonterminal p.lhs :: stack) tokens left

variable {g : Grammar} {stack stack' left : List Symbol} {tokens tokens' : List String}

/-! ## Leftmost steps -/

theorem LeftStep.step (h : g.LeftStep stack stack') : g.Step stack stack' := by
  cases h with
  | replace before after hp => exact .replace (before.map .terminal) after hp

theorem LeftDerives.derives (h : g.LeftDerives stack stack') : g.Derives stack stack' := by
  induction h with
  | refl => exact .refl
  | tail _ hs ih => exact .tail ih hs.step

theorem LeftStep.cons (h : g.LeftStep stack stack') (t : String) :
    g.LeftStep (.terminal t :: stack) (.terminal t :: stack') := by
  cases h with
  | replace before after hp =>
      simpa only [List.map_cons, List.cons_append] using LeftStep.replace (t :: before) after hp

theorem LeftDerives.cons (h : g.LeftDerives stack stack') (t : String) :
    g.LeftDerives (.terminal t :: stack) (.terminal t :: stack') := by
  induction h with
  | refl => exact .refl
  | tail _ hs ih => exact .tail ih (hs.cons t)

/-- The name behind the terminals is determined by the string of symbols. -/
theorem leftmost_unique {name name' : String} {after after' : List Symbol} :
    ∀ {before before' : List String},
      before.map Symbol.terminal ++ .nonterminal name :: after =
        before'.map .terminal ++ .nonterminal name' :: after' → name = name'
  | [], [], h => Symbol.nonterminal.inj (List.cons.inj h).1
  | [], _ :: _, h => Symbol.noConfusion (List.cons.inj h).1
  | _ :: _, [], h => Symbol.noConfusion (List.cons.inj h).1
  | _ :: _, _ :: _, h => leftmost_unique (List.cons.inj h).2

/-- A name without productions that comes first cannot be replaced. -/
theorem not_leftStep_of_undefined {name : String} (hname : ∀ p ∈ g.productions, p.lhs ≠ name)
    (before : List String) (after : List Symbol) :
    ¬ g.LeftStep (before.map .terminal ++ .nonterminal name :: after) stack := by
  intro h
  generalize hs : before.map Symbol.terminal ++ .nonterminal name :: after = first at h
  cases h with
  | replace before' after' hp => exact hname _ hp (leftmost_unique hs).symm

/-! ## Readings -/

theorem Reads.trans (h : g.Reads stack tokens stack') (h' : g.Reads stack' tokens' left) :
    g.Reads stack (tokens ++ tokens') left := by
  induction h with
  | done stack => exact h'
  | token t _ ih => exact .token t (ih h')
  | expand hp _ ih => exact .expand hp (ih h')

/-- What lies beneath the stack plays no part in a reading. -/
theorem Reads.append (h : g.Reads stack tokens left) (below : List Symbol) :
    g.Reads (stack ++ below) tokens (left ++ below) := by
  induction h with
  | done stack => exact .done _
  | token t _ ih => exact .token t ih
  | expand hp _ ih =>
      rw [List.append_assoc] at ih
      exact .expand hp ih

/-- The terminals on top are read. -/
theorem Reads.terminals (tokens : List String) (stack : List Symbol) :
    g.Reads (tokens.map .terminal ++ stack) tokens stack := by
  induction tokens with
  | nil => exact .done stack
  | cons t tokens ih => exact .token t ih

/-- A reading of a stack in two parts stays in the upper one, or empties it and goes
on in the lower one. -/
theorem Reads.append_cases {upper lower : List Symbol} (h : g.Reads (upper ++ lower) tokens left) :
    (∃ rest, left = rest ++ lower ∧ g.Reads upper tokens rest) ∨
      ∃ first second, tokens = first ++ second ∧ g.Reads upper first [] ∧
        g.Reads lower second left := by
  generalize hs : upper ++ lower = stack at h
  induction h generalizing upper with
  | done stack => exact .inl ⟨upper, hs.symm, .done upper⟩
  | @token stack left tokens t h ih =>
      cases upper with
      | nil =>
          rw [List.nil_append] at hs
          subst hs
          exact .inr ⟨[], t :: tokens, rfl, .done _, .token t h⟩
      | cons s upper =>
          obtain ⟨rfl, hrest⟩ := List.cons.inj hs
          rcases ih hrest with ⟨rest, hleft, hupper⟩ | ⟨first, second, rfl, hfirst, hsecond⟩
          · exact .inl ⟨rest, hleft, .token t hupper⟩
          · exact .inr ⟨t :: first, second, rfl, .token t hfirst, hsecond⟩
  | @expand stack left tokens p hp h ih =>
      cases upper with
      | nil =>
          rw [List.nil_append] at hs
          subst hs
          exact .inr ⟨[], tokens, rfl, .done _, .expand hp h⟩
      | cons s upper =>
          obtain ⟨rfl, rfl⟩ := List.cons.inj hs
          rcases ih (List.append_assoc ..) with
            ⟨rest, hleft, hupper⟩ | ⟨first, second, rfl, hfirst, hsecond⟩
          · exact .inl ⟨rest, hleft, .expand hp hupper⟩
          · exact .inr ⟨first, second, rfl, .expand hp hfirst, hsecond⟩

/-- A reading that empties a stack in two parts empties one after the other. -/
theorem Reads.split {upper lower : List Symbol} (h : g.Reads (upper ++ lower) tokens []) :
    ∃ first second, tokens = first ++ second ∧ g.Reads upper first [] ∧
      g.Reads lower second [] := by
  rcases h.append_cases with ⟨rest, hleft, hupper⟩ | hsplit
  · obtain ⟨rfl, rfl⟩ := List.append_eq_nil_iff.mp hleft.symm
    exact ⟨tokens, [], (List.append_nil tokens).symm, hupper, .done []⟩
  · exact hsplit

theorem Reads.nonterminal {p : Production} (hp : p ∈ g.productions)
    (h : g.Reads p.rhs tokens left) : g.Reads [.nonterminal p.lhs] tokens left :=
  .expand hp (by rwa [List.append_nil])

/-! ## Readings and leftmost derivations -/

theorem Reads.leftDerives (h : g.Reads stack tokens left) :
    g.LeftDerives stack (tokens.map .terminal ++ left) := by
  induction h with
  | done stack => exact .refl
  | token t _ ih => exact ih.cons t
  | expand hp _ ih => exact .head (.replace [] _ hp) ih

/-- A reading from behind some terminals either reads past them or stops at one
of them. -/
theorem Reads.terminals_inv {before : List String} :
    ∀ {tokens : List String}, g.Reads (before.map .terminal ++ stack) tokens left →
      (∃ rest, tokens = before ++ rest ∧ g.Reads stack rest left) ∨
        ∃ t rest, before = tokens ++ t :: rest ∧ left = (t :: rest).map .terminal ++ stack := by
  induction before with
  | nil =>
      intro tokens h
      exact .inl ⟨tokens, rfl, h⟩
  | cons t before ih =>
      intro tokens h
      cases h with
      | done => exact .inr ⟨t, before, rfl, rfl⟩
      | token _ h =>
          rcases ih h with ⟨rest, rfl, hrest⟩ | ⟨u, rest, rfl, hleft⟩
          · exact .inl ⟨rest, rfl, hrest⟩
          · exact .inr ⟨u, rest, rfl, hleft⟩

/-- A leftmost step first and a reading behind it make a reading, if they leave
a terminal on top or nothing. -/
theorem LeftStep.reads (hs : g.LeftStep stack stack') (h : g.Reads stack' tokens left) :
    ∃ left', g.Reads stack tokens left' ∧ left'.head? = left.head? := by
  cases hs with
  | @replace p before after hp =>
      -- Either the reading goes past the place of the step, or it stops before it and does
      -- not need the step.
      rcases h.terminals_inv with ⟨rest, rfl, hrest⟩ | ⟨t, rest, rfl, rfl⟩
      · exact ⟨left, (Reads.terminals before _).trans (.expand hp hrest), rfl⟩
      · refine ⟨(t :: rest).map .terminal ++ .nonterminal p.lhs :: after, ?_, rfl⟩
        rw [List.map_append, List.append_assoc]
        exact Reads.terminals tokens _

/-- A leftmost derivation reads the tokens that it begins with, up to a terminal
or to the end. -/
theorem LeftDerives.reads (h : g.LeftDerives stack (tokens.map .terminal ++ left)) :
    ∃ left', g.Reads stack tokens left' ∧ left'.head? = left.head? := by
  generalize hd : tokens.map .terminal ++ left = derived at h
  induction h using ReflTransGen.head_induction_on with
  | refl => exact ⟨left, hd ▸ Reads.terminals tokens left, rfl⟩
  | head hs _ ih =>
      obtain ⟨left', hreads, hleft'⟩ := ih
      obtain ⟨left'', hreads', hleft''⟩ := hs.reads hreads
      exact ⟨left'', hreads', hleft''.trans hleft'⟩

/-- What a leftmost derivation can have next behind some tokens is what a reading
of them can have on top. -/
theorem exists_leftDerives_terminal_iff {t : String} :
    (∃ rest, g.LeftDerives stack (tokens.map .terminal ++ .terminal t :: rest)) ↔
      ∃ rest, g.Reads stack tokens (.terminal t :: rest) := by
  constructor
  · rintro ⟨rest, h⟩
    obtain ⟨left, hreads, hleft⟩ := h.reads
    cases left with
    | nil => cases hleft
    | cons s left =>
        cases hleft
        exact ⟨left, hreads⟩
  · rintro ⟨rest, h⟩
    exact ⟨rest, h.leftDerives⟩

theorem leftDerives_terminals_iff :
    g.LeftDerives stack (tokens.map .terminal) ↔ g.Reads stack tokens [] := by
  constructor
  · intro h
    rw [← List.append_nil (tokens.map Symbol.terminal)] at h
    obtain ⟨left, hreads, hleft⟩ := h.reads
    rw [List.head?_nil, List.head?_eq_none_iff] at hleft
    exact hleft ▸ hreads
  · intro h
    simpa only [List.append_nil] using h.leftDerives

/-! ## Readings and derivations in any order -/

/-- A step anywhere in front of a reading that leaves nothing can be done when
the reading comes to its place. -/
theorem Step.reads (hs : g.Step stack stack') (h : g.Reads stack' tokens []) :
    g.Reads stack tokens [] := by
  cases hs with
  | @replace p before after hp =>
      obtain ⟨first, second, rfl, hfirst, hsecond⟩ := h.split
      have hbefore : g.Reads (before ++ .nonterminal p.lhs :: after) first
          (.nonterminal p.lhs :: after) := hfirst.append _
      exact hbefore.trans (.expand hp hsecond)

/-- A token list is derived in some order just if it is read off. -/
theorem reads_nil_iff_derives :
    g.Reads stack tokens [] ↔ g.Derives stack (tokens.map .terminal) := by
  constructor
  · intro h
    exact (leftDerives_terminals_iff.mpr h).derives
  · intro h
    induction h using ReflTransGen.head_induction_on with
    | refl => simpa only [List.append_nil] using Reads.terminals (g := g) tokens []
    | head hs _ ih => exact hs.reads ih

/-- A step in front of a reading is done when the reading comes to its place, if it
comes there. -/
theorem Step.exists_reads (hs : g.Step stack stack') (h : g.Reads stack' tokens left) :
    ∃ left', g.Reads stack tokens left' := by
  cases hs with
  | @replace p before after hp =>
      rcases h.append_cases with ⟨rest, -, hbefore⟩ | ⟨first, second, rfl, hfirst, hsecond⟩
      · exact ⟨_, hbefore.append _⟩
      · have hbefore : g.Reads (before ++ .nonterminal p.lhs :: after) first
            (.nonterminal p.lhs :: after) := hfirst.append _
        exact ⟨left, hbefore.trans (.expand hp hsecond)⟩

/-- What is derived in some order begins with some tokens just if these are read. -/
theorem exists_reads_iff_exists_derives :
    (∃ left, g.Reads stack tokens left) ↔
      ∃ rest, g.Derives stack (tokens.map .terminal ++ rest) := by
  constructor
  · rintro ⟨left, h⟩
    exact ⟨left, h.leftDerives.derives⟩
  · rintro ⟨rest, h⟩
    induction h using ReflTransGen.head_induction_on with
    | refl => exact ⟨rest, Reads.terminals tokens rest⟩
    | head hs _ ih =>
        obtain ⟨left, hreads⟩ := ih
        exact hs.exists_reads hreads

theorem mem_language_iff : tokens ∈ g.language ↔ g.Reads [g.startSymbol] tokens [] :=
  reads_nil_iff_derives.symm

end SentenceGuide.Grammar
