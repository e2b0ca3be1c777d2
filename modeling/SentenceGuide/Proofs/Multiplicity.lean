import SentenceGuide.Completion
import SentenceGuide.Proofs.Draining
import SentenceGuide.Proofs.ParseTrees

/-!
# Each derivation is explored once

That a search finds what derivations have next would still hold if it lost some of them,
as long as others find the same, or took some twice.  It does neither.  From the start
symbol above the sentinel it comes to the bare sentinel with all tokens read once for each
leftmost derivation of the tokens, and so once for each parse tree
(`countFinished_eq_derivations`).

The derivations are counted where they begin.  The derivations that lead from a
configuration to the end are those that lead there from the configurations that follow it,
each told apart by the place of the production that was used (`encard_endings`).  A run
preserves their number: what it holds, together with what it has taken, comes to the end
as often at every step.
-/

namespace SentenceGuide

open Pending (above below)

variable {g : Grammar}

/-! ## Words told apart by their heads -/

section Headed

variable {α : Type} {lookup : Nat → Option α} {ways : α → Set (List Nat)} {place : Nat}
  {places : List Nat} {a : α}

/-- Words with one of some places at their head, and behind it a way on from what is found
at that place. -/
def headed (lookup : Nat → Option α) (ways : α → Set (List Nat)) (places : List Nat) :
    Set (List Nat) :=
  {w | ∃ place ∈ places, ∃ a, lookup place = some a ∧ ∃ behind ∈ ways a, w = place :: behind}

theorem headed_nil : headed lookup ways [] = ∅ := by
  ext w
  simp [headed]

theorem headed_cons_of_none (h : lookup place = none) :
    headed lookup ways (place :: places) = headed lookup ways places := by
  ext w
  simp [headed, h]

theorem headed_cons_of_some (h : lookup place = some a) :
    headed lookup ways (place :: places) =
      (place :: ·) '' ways a ∪ headed lookup ways places := by
  ext w
  simp [headed, h, eq_comm]

/-- Words that go on from different places are different, so they are counted place by
place. -/
theorem encard_headed (lookup : Nat → Option α) (ways : α → Set (List Nat)) (h : places.Nodup) :
    (headed lookup ways places).encard =
      ((places.filterMap lookup : Multiset α).map fun a => (ways a).encard).sum := by
  induction places with
  | nil => simp [headed_nil]
  | cons place places ih =>
      rw [List.nodup_cons] at h
      cases ha : lookup place with
      | none => rw [headed_cons_of_none ha, List.filterMap_cons_none ha, ih h.2]
      | some a =>
          have hdisjoint : Disjoint ((place :: ·) '' ways a) (headed lookup ways places) := by
            rw [Set.disjoint_left]
            rintro _ ⟨behind, -, rfl⟩ ⟨other, hother, _, -, _, -, heq⟩
            exact h.1 ((List.cons.inj heq).1 ▸ hother)
          rw [headed_cons_of_some ha, Set.encard_union_eq hdisjoint,
            List.cons_injective.encard_image, ih h.2, List.filterMap_cons_some ha,
            ← Multiset.cons_coe, Multiset.map_cons, Multiset.sum_cons]

end Headed

/-! ## Derivations to the end -/

namespace Configuration

/-- The bare sentinel, with all tokens read. -/
def finished : Configuration := ⟨[.sentinel], []⟩

/-- The places of the derivations that lead from a configuration to the bare sentinel with
all tokens read. -/
def endings (g : Grammar) (c : Configuration) : Set (List Nat) :=
  {places | below c.pending = [.sentinel] ∧ g.ReadsBy (above c.pending) c.unmatched places}

variable {rest : List Pending} {unmatched : List String}

theorem endings_nil : endings g ⟨[], unmatched⟩ = ∅ := by
  ext places
  simp [endings, below]

theorem endings_sentinel :
    endings g ⟨.sentinel :: rest, unmatched⟩ =
      if ⟨.sentinel :: rest, unmatched⟩ = finished then {[]} else ∅ := by
  ext places
  rw [endings, Set.mem_ofPred_eq, Pending.above_sentinel, Pending.below_sentinel,
    Grammar.readsBy_nil_iff, finished]
  constructor
  · rintro ⟨hrest, rfl, rfl⟩
    rw [hrest, if_pos rfl]
    exact rfl
  · intro h
    split at h
    · next heq =>
        obtain ⟨hrest, hunmatched⟩ := Configuration.mk.inj heq
        exact ⟨hrest, hunmatched, h⟩
    · exact absurd h (Set.notMem_empty places)

theorem mem_endings_terminal {t : String} {places : List Nat} :
    places ∈ endings g ⟨.symbol (.terminal t) :: rest, unmatched⟩ ↔
      ∃ left, unmatched = t :: left ∧ places ∈ endings g ⟨rest, left⟩ := by
  rw [endings, Set.mem_ofPred_eq, above, below, Grammar.readsBy_terminal_iff]
  constructor
  · rintro ⟨hbelow, left, rfl, h⟩
    exact ⟨left, rfl, hbelow, h⟩
  · rintro ⟨left, rfl, hbelow, h⟩
    exact ⟨hbelow, left, rfl, h⟩

theorem endings_nonterminal {name : String} :
    endings g ⟨.symbol (.nonterminal name) :: rest, unmatched⟩ =
      headed (g.productions[·]?) (fun p => endings g (expand rest unmatched p))
        (g.index.places name) := by
  ext places
  simp only [endings, headed, Set.mem_ofPred_eq, above, below, Grammar.readsBy_nonterminal_iff,
    expand, Pending.above_append, Pending.below_append]
  constructor
  · rintro ⟨hbelow, place, p, ⟨hp, hname⟩, behind, h, rfl⟩
    exact ⟨place, Grammar.mem_places_iff.mpr ⟨p, hp, hname⟩, p, hp, behind, ⟨hbelow, h⟩, rfl⟩
  · rintro ⟨place, hplace, p, hp, behind, ⟨hbelow, h⟩, rfl⟩
    obtain ⟨p', hp', hname⟩ := Grammar.mem_places_iff.mp hplace
    obtain rfl := Option.some.inj (hp'.symm.trans hp)
    exact ⟨hbelow, place, p', ⟨hp, hname⟩, behind, h, rfl⟩

/-- The derivations from a configuration to the end are those from what follows it, and one
more if it is the end. -/
theorem encard_endings (g : Grammar) (c : Configuration) :
    (endings g c).encard = (if c = finished then 1 else 0) +
      ((c.next g : Multiset Configuration).map fun d => (endings g d).encard).sum := by
  match c with
  | ⟨[], unmatched⟩ => simp [endings_nil, next, finished]
  | ⟨.sentinel :: rest, unmatched⟩ =>
      rw [endings_sentinel]
      split
      · simp [next]
      · simp [next]
  | ⟨.symbol (.terminal t) :: rest, []⟩ =>
      have hempty : endings g ⟨.symbol (.terminal t) :: rest, []⟩ = ∅ := by
        ext places
        simp [mem_endings_terminal]
      simp [hempty, next, finished]
  | ⟨.symbol (.terminal t) :: rest, token :: unmatched⟩ =>
      by_cases h : token = t
      · subst h
        have hrest : endings g ⟨.symbol (.terminal token) :: rest, token :: unmatched⟩ =
            endings g ⟨rest, unmatched⟩ := by
          ext places
          simp [mem_endings_terminal]
        simp [hrest, next, finished]
      · have hempty : endings g ⟨.symbol (.terminal t) :: rest, token :: unmatched⟩ = ∅ := by
          ext places
          simp [mem_endings_terminal, h]
        simp [hempty, next, h, finished]
  | ⟨.symbol (.nonterminal name) :: rest, unmatched⟩ =>
      rw [endings_nonterminal, encard_headed _ _ (g.nodup_places name), next,
        Grammar.productionsFor, ← Multiset.map_coe, Multiset.map_map]
      simp [finished]

end Configuration

open SentenceGuide.Configuration (finished endings)

/-- A run comes to the end as often as there are derivations from what it holds. -/
theorem Run.count_finished {held : Multiset Configuration} {taken : List Configuration}
    (h : Run g held taken) :
    (taken.count finished : ℕ∞) = (held.map fun c => (endings g c).encard).sum := by
  induction h with
  | drained => rfl
  | @take held taken c _ ih =>
      have hone : ((if c == finished then 1 else 0 : ℕ) : ℕ∞) = if c = finished then 1 else 0 := by
        simp only [beq_iff_eq, Nat.cast_ite, Nat.cast_one, Nat.cast_zero]
      rw [Multiset.map_add, Multiset.sum_add] at ih
      rw [List.count_cons, Nat.cast_add, ih, hone, Multiset.map_cons, Multiset.sum_cons,
        Configuration.encard_endings, add_comm, add_assoc]

/-! ## Searches for sentences -/

variable {budget : Nat} {order : Order} {entered : List String} {seed : List Pending}
  {e : Exploration}

/-- How often a search took the bare sentinel with all tokens read. -/
def Exploration.countFinished (e : Exploration) : Nat :=
  e.taken.countP fun c => c.pending = [.sentinel] ∧ c.consumed e.entered = e.entered.length

/-- All tokens are read where none is unmatched. -/
theorem countFinished_eq_count (h : explore budget g entered seed order = some e) :
    e.countFinished = e.taken.count finished := by
  obtain ⟨-, hentered, -⟩ := run_of_explore h
  apply List.countP_congr
  rintro ⟨pending, unmatched⟩ hc
  obtain ⟨tokens, htokens, -⟩ := ((mem_taken_iff h).mp hc).reads
  have hlength : entered.length = tokens.length + unmatched.length := by
    rw [← List.length_append]
    exact congrArg List.length htokens
  have hread : entered.length - unmatched.length = entered.length ↔ unmatched = [] := by
    rw [← List.length_eq_zero_iff]
    omega
  simp only [hentered, Configuration.consumed, finished, decide_eq_true_eq, beq_iff_eq,
    Configuration.mk.injEq, hread]

/-- A search for the tokens entered comes to the bare sentinel with all of them read once
for each leftmost derivation of them, and so once for each parse tree. -/
theorem countFinished_eq_derivations (h : g.seek budget order entered = some e) :
    (e.countFinished : ℕ∞) =
      {places | g.LeftDerivesBy places [g.startSymbol] (entered.map .terminal)}.encard ∧
    (e.countFinished : ℕ∞) = {tree | g.Parses g.startSymbol entered tree}.encard := by
  obtain ⟨-, -, hrun, -⟩ := run_of_explore h
  have hendings : endings g (.initial [.symbol g.startSymbol, .sentinel] entered) =
      {places | g.LeftDerivesBy places [g.startSymbol] (entered.map .terminal)} := by
    ext places
    rw [Set.mem_ofPred_eq, Grammar.leftDerivesBy_iff_readsBy]
    exact and_iff_right rfl
  have hcount := hrun.count_finished
  rw [Multiset.map_singleton, Multiset.sum_singleton, hendings] at hcount
  rw [Grammar.encard_parses, countFinished_eq_count h]
  exact ⟨hcount, hcount⟩

/-- `S` is two `A`, and `A` is an `a` or nothing, where `a` is declared twice. -/
def repeated : Grammar :=
  .ofProductions "S"
    [⟨"S", [.nonterminal "A", .nonterminal "A"]⟩, ⟨"A", [.terminal "a"]⟩, ⟨"A", []⟩,
      ⟨"A", [.terminal "a"]⟩]

theorem countFinished_repeated :
    ∃ e, repeated.seek 40 .lifo ["a"] = some e ∧
      {places | repeated.LeftDerivesBy places [.nonterminal "S"] [.terminal "a"]}.encard = 4 ∧
      {tree | repeated.Parses (.nonterminal "S") ["a"] tree}.encard = 4 := by
  have hfour : (repeated.seek 40 .lifo ["a"]).any (·.countFinished = 4) := by decide +kernel
  obtain ⟨e, he, hcount⟩ := (Option.any_eq_true _ _).mp hfour
  obtain ⟨hplaces, htrees⟩ := countFinished_eq_derivations he
  rw [of_decide_eq_true hcount] at hplaces htrees
  exact ⟨e, he, hplaces.symm, htrees.symm⟩

end SentenceGuide
