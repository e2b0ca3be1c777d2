import Mathlib.Data.Fintype.Card
import Mathlib.Data.Set.Finite.List
import SentenceGuide.Proofs.Draining

/-!
# When a search drains

A name exposes another if one of its productions has it behind nothing but
symbols that derive the empty string.  A name on top of the stack brings every
name that it exposes to the top without a token being read, so a name that
exposes itself, directly or through others, comes back for ever.  The search
drains just if it never gets to such a name.

That it drains otherwise has no measure in the loop, since the stack may grow
while names are replaced.  But only finitely many names have productions, so
where no name comes back the names on top go down a well-founded relation, for as
long as no token is read.  `Ends` says that every way on from a configuration
ends.  It is proved by induction on the tokens to be read, on the name on top and
on what is exposed in the right-hand side that replaces it
(`ends_nonterminal`).
-/

namespace SentenceGuide

open Relation (ReflTransGen TransGen)

namespace Grammar

/-! ## Exposed names -/

/-- A symbol that derives the empty string. -/
def Nullable (g : Grammar) (s : Symbol) : Prop := g.Derives [s] []

/-- A name with only nullable symbols before it. -/
def Surfaces (g : Grammar) (stack : List Symbol) (name : String) : Prop :=
  ∃ before after, stack = before ++ .nonterminal name :: after ∧ ∀ s ∈ before, g.Nullable s

/-- The second name stands in a production of the first, with only nullable
symbols before it. -/
def Exposes (g : Grammar) (name other : String) : Prop :=
  ∃ p ∈ g.productions, p.lhs = name ∧ g.Surfaces p.rhs other

variable {g : Grammar} {s : Symbol} {stack : List Symbol} {name other : String}

theorem nullable_iff_reads : g.Nullable s ↔ g.Reads [s] [] [] :=
  (@reads_nil_iff_derives g [s] []).symm

theorem not_nullable_terminal (t : String) : ¬ g.Nullable (.terminal t) := by
  intro h
  cases nullable_iff_reads.mp h

theorem Nullable.reads (h : g.Nullable s) (stack : List Symbol) :
    g.Reads (s :: stack) [] stack :=
  (nullable_iff_reads.mp h).append stack

theorem reads_of_nullable :
    ∀ {before : List Symbol}, (∀ s ∈ before, g.Nullable s) → ∀ stack,
      g.Reads (before ++ stack) [] stack
  | [], _, stack => .done stack
  | s :: before, h, stack => by
      have hs : g.Nullable s := h s List.mem_cons_self
      have hbefore : ∀ s' ∈ before, g.Nullable s' :=
        fun s' hs' => h s' (List.mem_cons_of_mem s hs')
      exact (hs.reads (before ++ stack)).trans (reads_of_nullable hbefore stack)

theorem Surfaces.reads (h : g.Surfaces stack name) :
    ∃ after, g.Reads stack [] (.nonterminal name :: after) := by
  obtain ⟨before, after, rfl, hbefore⟩ := h
  exact ⟨after, reads_of_nullable hbefore _⟩

theorem Surfaces.top (name : String) (after : List Symbol) :
    g.Surfaces (.nonterminal name :: after) name :=
  ⟨[], after, rfl, fun _ hs => absurd hs List.not_mem_nil⟩

theorem Surfaces.cons (hs : g.Nullable s) (h : g.Surfaces stack name) :
    g.Surfaces (s :: stack) name := by
  obtain ⟨before, after, rfl, hbefore⟩ := h
  refine ⟨s :: before, after, rfl, ?_⟩
  intro s' hs'
  rcases List.mem_cons.mp hs' with rfl | hs'
  · exact hs
  · exact hbefore s' hs'

theorem not_surfaces_nil : ¬ g.Surfaces [] name := by
  rintro ⟨before, after, h, -⟩
  simp at h

theorem Surfaces.of_cons (h : g.Surfaces (s :: stack) name) :
    s = .nonterminal name ∨ g.Nullable s ∧ g.Surfaces stack name := by
  obtain ⟨before, after, heq, hbefore⟩ := h
  cases before with
  | nil => exact .inl (List.cons.inj heq).1
  | cons s' before =>
      obtain ⟨rfl, rfl⟩ := List.cons.inj heq
      exact .inr ⟨hbefore s List.mem_cons_self, before, after, rfl,
        fun s' hs' => hbefore s' (List.mem_cons_of_mem s hs')⟩

theorem not_surfaces_terminal {t : String} : ¬ g.Surfaces (.terminal t :: stack) name := by
  intro h
  rcases h.of_cons with h | ⟨h, -⟩
  · cases h
  · exact not_nullable_terminal t h

/-! ## Names that do not come back -/

theorem Exposes.mem (h : g.Exposes name other) : name ∈ g.productions.map (·.lhs) := by
  obtain ⟨p, hp, rfl, -⟩ := h
  exact List.mem_map_of_mem hp

/-- If no name on the way comes back to itself, all chains of exposed names end. -/
theorem acc_exposes (h : ∀ other, ReflTransGen g.Exposes name other →
    ¬ TransGen g.Exposes other other) : Acc (fun lower upper => g.Exposes upper lower) name := by
  -- Only names with productions expose others, and these are finitely many.  Among those
  -- on the way a relation that leads back to none of them is well founded.
  let names : Set String :=
    {other | other ∈ g.productions.map (·.lhs) ∧ ReflTransGen g.Exposes name other}
  have hfinite : Finite names :=
    ((List.finite_toSet (g.productions.map (·.lhs))).subset fun _ hother => hother.1).to_subtype
  have htrans : IsTrans names fun lower upper => TransGen g.Exposes upper lower :=
    ⟨fun _ _ _ hab hbc => hbc.trans hab⟩
  have hirrefl : Std.Irrefl fun lower upper : names => TransGen g.Exposes upper lower :=
    ⟨fun other hother => h other other.2.2 hother⟩
  have hwf := Finite.wellFounded_of_trans_of_irrefl
    fun lower upper : names => TransGen g.Exposes upper lower
  have key : ∀ other : names, Acc (fun lower upper => g.Exposes upper lower) other.1 := by
    intro other
    induction other using hwf.induction with
    | h other ih =>
        constructor
        intro lower hlower
        by_cases hmem : lower ∈ g.productions.map (·.lhs)
        · exact ih ⟨lower, hmem, other.2.2.tail hlower⟩ (.single hlower)
        · exact ⟨_, fun _ hnext => absurd hnext.mem hmem⟩
  by_cases hmem : name ∈ g.productions.map (·.lhs)
  · exact key ⟨name, hmem, .refl⟩
  · exact ⟨_, fun _ hnext => absurd hnext.mem hmem⟩

end Grammar

namespace Configuration

variable {g : Grammar} {c d : Configuration} {name : String} {stack : List Symbol}
  {rest : List Pending} {unmatched : List String}

/-! ## Configurations from which every way on ends -/

/-- There is no endless chain of steps from a configuration. -/
def Ends (g : Grammar) : Configuration → Prop := Acc fun d c => Follows g c d

/-- A name on top that exposes itself. -/
def Loops (g : Grammar) (c : Configuration) : Prop :=
  ∃ name rest, c.pending = .symbol (.nonterminal name) :: rest ∧ TransGen g.Exposes name name

/-- No configuration that can be reached loops. -/
def LoopFree (g : Grammar) (c : Configuration) : Prop := ∀ d, Reaches g c d → ¬ Loops g d

theorem LoopFree.of_reaches (h : LoopFree g c) (hreach : Reaches g c d) : LoopFree g d :=
  fun e he => h e (hreach.trans he)

theorem LoopFree.pop {s : Symbol} (h : LoopFree g ⟨.symbol s :: rest, unmatched⟩)
    (hs : g.Nullable s) : LoopFree g ⟨rest, unmatched⟩ :=
  h.of_reaches (Reaches.of_reads (Grammar.nullable_iff_reads.mp hs) rest unmatched)

theorem Ends.of_reaches (h : Ends g c) (hreach : Reaches g c d) : Ends g d := by
  induction hreach with
  | refl => exact h
  | tail _ hs ih => exact ih.inv hs

/-! ## A loop never ends -/

/-- A name on top brings the names that it exposes to the top. -/
theorem exists_transGen_of_exposes {other : String} (h : g.Exposes name other)
    (rest : List Pending) (unmatched : List String) :
    ∃ rest', TransGen (Follows g) ⟨.symbol (.nonterminal name) :: rest, unmatched⟩
      ⟨.symbol (.nonterminal other) :: rest', unmatched⟩ := by
  obtain ⟨p, hp, rfl, hsurfaces⟩ := h
  obtain ⟨after, hreads⟩ := hsurfaces.reads
  exact ⟨after.map Pending.symbol ++ rest,
    .head' (follows_expand hp rest unmatched) (Reaches.of_reads hreads rest unmatched)⟩

theorem exists_transGen_of_transGen {other : String} (h : TransGen g.Exposes name other)
    (rest : List Pending) (unmatched : List String) :
    ∃ rest', TransGen (Follows g) ⟨.symbol (.nonterminal name) :: rest, unmatched⟩
      ⟨.symbol (.nonterminal other) :: rest', unmatched⟩ := by
  induction h with
  | single h => exact exists_transGen_of_exposes h rest unmatched
  | tail _ h ih =>
      obtain ⟨rest', hfirst⟩ := ih
      obtain ⟨rest'', hsecond⟩ := exists_transGen_of_exposes h rest' unmatched
      exact ⟨rest'', hfirst.trans hsecond⟩

theorem not_ends_of_loops (h : Loops g c) : ¬ Ends g c := by
  intro hends
  have hacc : Acc (TransGen fun d c => Follows g c d) c := hends.transGen
  induction hacc with
  | intro c _ ih =>
      obtain ⟨name, rest, hpending, hloop⟩ := h
      obtain ⟨pending, unmatched⟩ := c
      cases hpending
      -- The loop brings the same name to the top again, over a stack that may be longer.
      obtain ⟨rest', hnext⟩ := exists_transGen_of_transGen hloop rest unmatched
      exact ih _ (Relation.transGen_swap.mpr hnext) ⟨name, rest', rfl, hloop⟩
        (hends.of_reaches hnext.to_reflTransGen)

/-! ## Without a loop every way ends -/

/-- Chains of exposed names end behind a name on top, if no loop is reached. -/
theorem LoopFree.acc_exposes (h : LoopFree g ⟨.symbol (.nonterminal name) :: rest, unmatched⟩) :
    Acc (fun lower upper => g.Exposes upper lower) name := by
  apply Grammar.acc_exposes
  intro other hother hloop
  rcases Relation.reflTransGen_iff_eq_or_transGen.mp hother with rfl | hother
  · exact h _ .refl ⟨_, rest, rfl, hloop⟩
  · obtain ⟨rest', hnext⟩ := exists_transGen_of_transGen hother rest unmatched
    exact h _ hnext.to_reflTransGen ⟨other, rest', rfl, hloop⟩

section Shorter

variable (hshorter : ∀ d : Configuration, d.unmatched.length < unmatched.length →
  LoopFree g d → Ends g d)

include hshorter

theorem ends_terminal {t : String} (h : LoopFree g ⟨.symbol (.terminal t) :: rest, unmatched⟩) :
    Ends g ⟨.symbol (.terminal t) :: rest, unmatched⟩ := by
  constructor
  intro d hd
  apply hshorter d ?_ (h.of_reaches (.single hd))
  obtain ⟨hunmatched, -⟩ := follows_terminal_iff.mp hd
  rw [hunmatched, List.length_cons]
  exact Nat.lt_succ_self _

/-- A stack of symbols over a rest ends if the names that surface in it do, and
the rest does where it comes to the top. -/
theorem ends_append (h : LoopFree g ⟨stack.map .symbol ++ rest, unmatched⟩)
    (hnames : ∀ name, g.Surfaces stack name → ∀ rest,
      LoopFree g ⟨.symbol (.nonterminal name) :: rest, unmatched⟩ →
      (g.Nullable (.nonterminal name) → Ends g ⟨rest, unmatched⟩) →
      Ends g ⟨.symbol (.nonterminal name) :: rest, unmatched⟩)
    (hrest : (∀ s ∈ stack, g.Nullable s) → Ends g ⟨rest, unmatched⟩) :
    Ends g ⟨stack.map .symbol ++ rest, unmatched⟩ := by
  induction stack with
  | nil => exact hrest (fun _ hs => absurd hs List.not_mem_nil)
  | cons s stack ih =>
      cases s with
      | terminal t => exact ends_terminal hshorter h
      | nonterminal name =>
          apply hnames name (.top name stack) _ h
          intro hname
          apply ih (h.pop hname)
          · intro other hother
            exact hnames other (hother.cons hname)
          · intro hstack
            apply hrest
            intro s hs
            rcases List.mem_cons.mp hs with rfl | hs
            · exact hname
            · exact hstack s hs

theorem ends_nonterminal (hacc : Acc (fun lower upper => g.Exposes upper lower) name) :
    ∀ rest, LoopFree g ⟨.symbol (.nonterminal name) :: rest, unmatched⟩ →
      (g.Nullable (.nonterminal name) → Ends g ⟨rest, unmatched⟩) →
      Ends g ⟨.symbol (.nonterminal name) :: rest, unmatched⟩ := by
  induction hacc with
  | intro name _ ih =>
      intro rest h hrest
      constructor
      intro d hd
      have hd' : LoopFree g d := h.of_reaches (.single hd)
      obtain ⟨p, hp, rfl, rfl⟩ := follows_nonterminal_iff.mp hd
      refine ends_append hshorter hd' ?_ ?_
      · intro other hother
        exact ih other ⟨p, hp, rfl, hother⟩
      · -- The rest comes to the top only behind a nullable right-hand side, and then the
        -- name is nullable too.
        intro hnullable
        apply hrest
        rw [Grammar.nullable_iff_reads]
        have hrhs := Grammar.reads_of_nullable hnullable []
        rw [List.append_nil] at hrhs
        exact .nonterminal hp hrhs

end Shorter

/-- Nothing follows where a sentinel is on top or nothing is. -/
theorem ends_below (stack : List Pending) : Ends g ⟨Pending.below stack, unmatched⟩ := by
  constructor
  intro d hd
  rcases Pending.below_eq_nil_or_sentinel stack with ⟨hbelow, -⟩ | ⟨⟨rest, hbelow⟩, -⟩
  · rw [hbelow] at hd
    exact absurd hd not_follows_nil
  · rw [hbelow] at hd
    exact absurd hd not_follows_sentinel

theorem ends_of_loopFree (h : LoopFree g c) : Ends g c := by
  induction hn : c.unmatched.length using Nat.strong_induction_on generalizing c with
  | h n ih =>
      subst hn
      have hshorter : ∀ d : Configuration, d.unmatched.length < c.unmatched.length →
          LoopFree g d → Ends g d := fun d hlt hd => ih _ hlt hd rfl
      obtain ⟨pending, unmatched⟩ := c
      -- No step goes beneath the first sentinel, so the symbols above it are all that counts.
      rw [← Pending.above_append_below pending] at h ⊢
      refine ends_append hshorter h ?_ fun _ => ends_below pending
      intro name _ rest hname
      exact ends_nonterminal hshorter hname.acc_exposes rest hname

theorem ends_iff_loopFree : Ends g c ↔ LoopFree g c :=
  ⟨fun h _ hreach hloops => not_ends_of_loops hloops (h.of_reaches hreach), ends_of_loopFree⟩

end Configuration

/-! ## Draining -/

section Drains

variable {g : Grammar} {held : Multiset Configuration} {taken : List Configuration}
  {c : Configuration} {entered : List String} {seed : List Pending} {order : Order}

theorem Run.ends (h : Run g held taken) : ∀ c ∈ held, Configuration.Ends g c := by
  induction h with
  | drained =>
      intro c hc
      exact absurd hc (Multiset.notMem_zero c)
  | @take held taken d _ ih =>
      intro c hc
      rcases Multiset.mem_cons.mp hc with rfl | hc
      · exact ⟨_, fun e he => ih e (Multiset.mem_add.mpr (.inl (Multiset.mem_coe.mpr he)))⟩
      · exact ih c (Multiset.mem_add.mpr (.inr hc))

theorem exists_run_of_forall :
    ∀ cs : List Configuration, (∀ c ∈ cs, ∃ taken, Run g {c} taken) → ∃ taken, Run g ↑cs taken
  | [], _ => ⟨[], .drained⟩
  | c :: cs, h => by
      obtain ⟨first, hfirst⟩ := h c List.mem_cons_self
      obtain ⟨taken, hrun⟩ := exists_run_of_forall cs fun d hd => h d (List.mem_cons_of_mem c hd)
      exact ⟨first ++ taken, hfirst.append hrun⟩

/-- Only finitely many configurations follow each, so if every way on ends there
is a run. -/
theorem exists_run_of_ends (h : Configuration.Ends g c) : ∃ taken, Run g {c} taken := by
  induction h with
  | intro c _ ih =>
      obtain ⟨taken, hrun⟩ := exists_run_of_forall (c.next g) ih
      refine ⟨c :: taken, .take c ?_⟩
      rwa [add_zero]

theorem drains_iff_ends :
    Drains g entered seed order ↔ Configuration.Ends g (.initial seed entered) := by
  rw [drains_iff_exists_run]
  constructor
  · rintro ⟨taken, hrun⟩
    exact hrun.ends _ (Multiset.mem_singleton_self _)
  · exact exists_run_of_ends

/-- If no name exposes itself, every search drains. -/
theorem drains_of_acyclic (h : ∀ name, ¬ TransGen g.Exposes name name) :
    ∀ entered seed order, Drains g entered seed order := by
  intro entered seed order
  rw [drains_iff_ends, Configuration.ends_iff_loopFree]
  rintro c - ⟨name, rest, -, hloop⟩
  exact h name hloop

/-- If names only expose names of lower rank, no name exposes itself. -/
theorem acyclic_of_rank (rank : String → Nat)
    (hrank : ∀ name other, g.Exposes name other → rank other < rank name) (name : String) :
    ¬ TransGen g.Exposes name name := by
  have hlower : ∀ other, TransGen g.Exposes name other → rank other < rank name := by
    intro other h
    induction h with
    | single h => exact hrank _ _ h
    | tail _ h ih => exact (hrank _ _ h).trans ih
  intro hloop
  exact Nat.lt_irrefl _ (hlower name hloop)

theorem drains_of_rank (rank : String → Nat)
    (hrank : ∀ name other, g.Exposes name other → rank other < rank name) :
    ∀ entered seed order, Drains g entered seed order :=
  drains_of_acyclic (acyclic_of_rank rank hrank)

/-- A search drains just if it never has a name on top that exposes itself.  If no
name of the grammar does, every search drains. -/
theorem drains_iff_no_exposed_cycle (g : Grammar) :
    (∀ entered seed order, Drains g entered seed order ↔
      ¬ ∃ c name rest, Configuration.Reaches g (.initial seed entered) c ∧
        c.pending = .symbol (.nonterminal name) :: rest ∧ TransGen g.Exposes name name) ∧
    ((∀ name, ¬ TransGen g.Exposes name name) →
      ∀ entered seed order, Drains g entered seed order) := by
  constructor
  · intro entered seed order
    rw [drains_iff_ends, Configuration.ends_iff_loopFree]
    constructor
    · rintro h ⟨c, name, rest, hreach, hpending, hloop⟩
      exact h c hreach ⟨name, rest, hpending, hloop⟩
    · rintro h c hreach ⟨name, rest, hpending, hloop⟩
      exact h ⟨c, name, rest, hreach, hpending, hloop⟩
  · intro h entered seed order
    rw [drains_iff_ends, Configuration.ends_iff_loopFree]
    rintro c - ⟨name, rest, -, hloop⟩
    exact h name hloop

/-- `S` is any number of `x`, each with an `a` or nothing before it, and in the end
an `a` or nothing. -/
def optionals : Grammar :=
  .ofProductions "S"
    [⟨"S", [.nonterminal "A", .terminal "x", .nonterminal "S"]⟩, ⟨"S", [.nonterminal "A"]⟩,
      ⟨"A", []⟩, ⟨"A", [.terminal "a"]⟩]

theorem exposes_optionals {name other : String} (h : optionals.Exposes name other) :
    name = "S" ∧ other = "A" := by
  obtain ⟨p, hp, rfl, hsurfaces⟩ := h
  simp only [optionals, Grammar.productions_ofProductions, List.mem_cons, List.not_mem_nil,
    or_false] at hp
  rcases hp with rfl | rfl | rfl | rfl
  · rcases hsurfaces.of_cons with h | ⟨-, h⟩
    · cases h
      exact ⟨rfl, rfl⟩
    · exact absurd h Grammar.not_surfaces_terminal
  · rcases hsurfaces.of_cons with h | ⟨-, h⟩
    · cases h
      exact ⟨rfl, rfl⟩
    · exact absurd h Grammar.not_surfaces_nil
  · exact absurd hsurfaces Grammar.not_surfaces_nil
  · exact absurd hsurfaces Grammar.not_surfaces_terminal

theorem drains_optionals :
    (∀ name, ¬ TransGen optionals.Exposes name name) ∧
    ∀ entered seed order, Drains optionals entered seed order := by
  have hcycle : ∀ name, ¬ TransGen optionals.Exposes name name := by
    intro name h
    obtain ⟨_, hfirst, -⟩ := Relation.TransGen.head'_iff.mp h
    obtain ⟨_, -, hlast⟩ := Relation.TransGen.tail'_iff.mp h
    have hname := (exposes_optionals hfirst).1
    rw [(exposes_optionals hlast).2] at hname
    exact absurd hname (by decide)
  exact ⟨hcycle, (drains_iff_no_exposed_cycle optionals).2 hcycle⟩

end Drains

end SentenceGuide
