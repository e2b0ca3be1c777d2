import Mathlib.Algebra.Order.Group.Multiset
import SentenceGuide.Proofs.Steps
import SentenceGuide.Search.Exploration

/-!
# Draining a worklist

A worklist is a bag if it gives back some item that was put in and has not been
taken out since, and nothing only when no such item is left.  Stacks and queues
are bags.

What a search does depends on a bag only through the order in which it takes the
configurations.  A run is a search with the order left open: it holds a multiset
of configurations and takes any of them.  Two takes can be exchanged, since what
the one puts in does not touch what the other takes (`Run.exchange`).  So all runs
from the same configurations take the same ones, only in different orders
(`Run.perm`).  A search with a bag drains just if there is a run, and takes then
as many configurations (`exploreIn_isSome_iff`, `run_of_exploreIn`).
-/

namespace SentenceGuide

/-! ## Bags -/

namespace Worklist

variable {ω α : Type} [Worklist ω α]

/-- What a worklist holds after some puts and takes: the items that were put in
and have not been taken out since. -/
inductive Holds : ω → Multiset α → Prop where
  /-- At first nothing is held. -/
  | empty : Holds Worklist.empty 0
  /-- One more item is held when it has been put in. -/
  | put {held : ω} {items : Multiset α} (item : α) :
      Holds held items → Holds (Worklist.put item held) (item ::ₘ items)
  /-- One item less is held when it has been taken out. -/
  | take {held held' : ω} {items : Multiset α} {item : α} :
      Holds held (item ::ₘ items) → Worklist.take held = some (item, held') → Holds held' items

/-- A worklist that gives back what was put in, in whatever order. -/
class Bag (ω : Type) {α : Type} [Worklist ω α] : Prop where
  /-- What is taken out is held. -/
  mem_of_take {held held' : ω} {items : Multiset α} {item : α} :
    Holds held items → Worklist.take held = some (item, held') → item ∈ items
  /-- Nothing is taken out only if nothing is held. -/
  eq_zero_of_take {held : ω} {items : Multiset α} :
    Holds held items → Worklist.take held = none → items = 0

theorem Holds.single (item : α) :
    Holds (Worklist.put item (Worklist.empty : ω)) ({item} : Multiset α) :=
  empty.put item

theorem Holds.putAll {held : ω} {items : Multiset α} (h : Holds held items) (more : List α) :
    Holds (Worklist.putAll more held) ((more : Multiset α) + items) := by
  induction more generalizing held items with
  | nil => simpa [Worklist.putAll] using h
  | cons item more ih =>
      have := ih (h.put item)
      rwa [Multiset.add_cons, ← Multiset.cons_add, Multiset.cons_coe] at this

/-- A list of what is held, in the order in which it will be taken, makes a bag. -/
theorem Bag.of_items (items : ω → List α) (hempty : items Worklist.empty = [])
    (hput : ∀ item held, (items (Worklist.put item held)).Perm (item :: items held))
    (hnone : ∀ held, Worklist.take held = none → items held = [])
    (htake : ∀ held held' item, Worklist.take held = some (item, held') →
      items held = item :: items held') : Bag ω := by
  -- The list says what is held, however it came to be held.
  have key : ∀ {held : ω} {all : Multiset α}, Holds held all → ↑(items held) = all := by
    intro held all h
    induction h with
    | empty => rw [hempty, Multiset.coe_nil]
    | put item _ ih => rw [Multiset.coe_eq_coe.mpr (hput item _), ← Multiset.cons_coe, ih]
    | take _ ht ih =>
        rw [htake _ _ _ ht, ← Multiset.cons_coe] at ih
        exact (Multiset.cons_inj_right _).mp ih
  constructor
  · intro held held' all item h ht
    rw [← key h, htake held held' item ht]
    exact List.mem_cons_self
  · intro held all h ht
    rw [← key h, hnone held ht, Multiset.coe_nil]

instance : Bag (Stack α) :=
  .of_items Stack.items Stack.items_empty (fun item held => .of_eq (Stack.items_put item held))
    (fun _ => Stack.take_eq_none_iff.mp) (fun _ _ _ => Stack.items_of_take)

instance : Bag (Queue α) :=
  .of_items Queue.items Queue.items_empty
    (fun item held => Queue.items_put item held ▸ List.perm_append_singleton item held.items)
    (fun _ => Queue.take_eq_none_iff.mp) (fun _ _ _ => Queue.items_of_take)

end Worklist

/-! ## Runs -/

/-- A search that holds some configurations and takes those of a list, one after
the other, until none is held. -/
inductive Run (g : Grammar) : Multiset Configuration → List Configuration → Prop where
  /-- Nothing is held. -/
  | drained : Run g 0 []
  /-- A configuration is taken and those that follow it are put in. -/
  | take {held : Multiset Configuration} {taken : List Configuration} (c : Configuration) :
      Run g (↑(c.next g) + held) taken → Run g (c ::ₘ held) (c :: taken)

namespace Run

variable {g : Grammar} {held held' : Multiset Configuration} {taken taken' : List Configuration}
  {c : Configuration}

theorem eq_zero_of_nil (h : Run g held []) : held = 0 := by
  cases h
  rfl

theorem of_cons (h : Run g held (c :: taken)) :
    ∃ rest, held = c ::ₘ rest ∧ Run g (↑(c.next g) + rest) taken := by
  cases h with
  | take _ h => exact ⟨_, rfl, h⟩

/-- Whatever is held may be taken first. -/
theorem exchange (h : Run g held taken) (hc : c ∈ held) :
    ∃ taken', Run g held (c :: taken') ∧ (c :: taken').Perm taken := by
  induction h with
  | drained => exact absurd hc (Multiset.notMem_zero c)
  | @take held taken d h ih =>
      by_cases hd : c = d
      · subst hd
        exact ⟨taken, .take c h, .refl _⟩
      · have hmem : c ∈ held := (Multiset.mem_cons.mp hc).resolve_left hd
        obtain ⟨rest, rfl⟩ := Multiset.exists_cons_of_mem hmem
        -- `c` can be taken after `d`, and then `d` after `c` as well.
        obtain ⟨taken', hrun, hperm⟩ := ih (Multiset.mem_add.mpr (.inr hmem))
        obtain ⟨rest', heq, hrun⟩ := hrun.of_cons
        rw [Multiset.add_cons, Multiset.cons_inj_right] at heq
        subst heq
        refine ⟨d :: taken', ?_, (List.Perm.swap d c taken').trans (hperm.cons d)⟩
        rw [Multiset.cons_swap]
        refine .take c ?_
        rw [Multiset.add_cons]
        refine .take d ?_
        rwa [add_left_comm]

/-- All runs from the same configurations take the same ones. -/
theorem perm (h : Run g held taken) (h' : Run g held taken') : taken.Perm taken' := by
  induction h' generalizing taken with
  | drained =>
      cases taken with
      | nil => exact .refl _
      | cons c taken =>
          obtain ⟨rest, hrest, -⟩ := h.of_cons
          exact absurd hrest (Multiset.zero_ne_cons)
  | @take held taken' c _ ih =>
      obtain ⟨taken'', hrun, hperm⟩ := h.exchange (Multiset.mem_cons_self c held)
      obtain ⟨rest, heq, hrun⟩ := hrun.of_cons
      rw [Multiset.cons_inj_right] at heq
      exact hperm.symm.trans ((ih (heq ▸ hrun)).cons c)

theorem append (h : Run g held taken) (h' : Run g held' taken') :
    Run g (held + held') (taken ++ taken') := by
  induction h with
  | drained => rwa [zero_add]
  | take c _ ih =>
      rw [Multiset.cons_add]
      refine .take c ?_
      rwa [← add_assoc]

/-- What was held at first and what was put in since has been taken in the end. -/
theorem foldl_add_card (h : Run g held taken) :
    ∀ n, taken.foldl (fun n c => n + (c.next g).length) n + held.card = n + taken.length := by
  induction h with
  | drained =>
      intro n
      rfl
  | @take held taken c _ ih =>
      intro n
      have hrest := ih (n + (c.next g).length)
      rw [Multiset.card_add, Multiset.coe_card] at hrest
      rw [List.foldl_cons, Multiset.card_cons, List.length_cons]
      omega

/-- A run takes what can be reached from what is held, and nothing else. -/
theorem mem_iff (h : Run g held taken) :
    c ∈ taken ↔ ∃ d ∈ held, Configuration.Reaches g d c := by
  induction h with
  | drained => simp
  | @take held taken d _ ih =>
      rw [List.mem_cons, ih]
      constructor
      · rintro (rfl | ⟨e, he, hreach⟩)
        · exact ⟨c, Multiset.mem_cons_self c held, .refl⟩
        · rcases Multiset.mem_add.mp he with he | he
          · exact ⟨d, Multiset.mem_cons_self d held, .head (Multiset.mem_coe.mp he) hreach⟩
          · exact ⟨e, Multiset.mem_cons_of_mem he, hreach⟩
      · rintro ⟨e, he, hreach⟩
        rcases Multiset.mem_cons.mp he with rfl | he
        · rcases hreach.cases_head with rfl | ⟨e', he', hreach⟩
          · exact .inl rfl
          · exact .inr ⟨e', Multiset.mem_add.mpr (.inl (Multiset.mem_coe.mpr he')), hreach⟩
        · exact .inr ⟨e, Multiset.mem_add.mpr (.inr he), hreach⟩

end Run

/-! ## Searches are runs -/

/-- A search with a worklist of a type drains within some budget. -/
def DrainsIn (ω : Type) [Worklist ω Configuration] (g : Grammar) (entered : List String)
    (seed : List Pending) : Prop :=
  ∃ budget, (exploreIn ω budget g entered seed).isSome

/-- A search in an order drains within some budget. -/
def Drains (g : Grammar) (entered : List String) (seed : List Pending) (order : Order) : Prop :=
  ∃ budget, (explore budget g entered seed order).isSome

section Drain

variable {ω : Type} [Worklist ω Configuration] {g : Grammar} {held held' : ω}
  {items : Multiset Configuration} {c : Configuration} {before all taken : List Configuration}
  {budget : Nat} {entered : List String} {seed : List Pending} {e : Exploration}

theorem drain_of_take_eq_none (h : Worklist.take held = none) :
    drain g held before budget = some before.reverse := by
  cases budget <;> rw [drain, h]

theorem drain_zero_of_take (h : Worklist.take held = some (c, held')) :
    drain g held before 0 = none := by
  rw [drain, h]

theorem drain_succ_of_take (h : Worklist.take held = some (c, held')) :
    drain g held before (budget + 1) =
      drain g (Worklist.putAll (c.next g) held') (c :: before) budget := by
  rw [drain, h]

/-- A larger budget does not change what a search takes. -/
theorem drain_mono {budget' : Nat} (h : drain g held before budget = some all)
    (hle : budget ≤ budget') : drain g held before budget' = some all := by
  induction budget generalizing held before budget' with
  | zero =>
      cases ht : Worklist.take held with
      | none => rwa [drain_of_take_eq_none ht] at h ⊢
      | some step =>
          rw [drain_zero_of_take ht] at h
          cases h
  | succ budget ih =>
      cases ht : Worklist.take held with
      | none => rwa [drain_of_take_eq_none ht] at h ⊢
      | some step =>
          obtain ⟨budget', rfl⟩ := Nat.exists_eq_add_of_lt (Nat.lt_of_succ_le hle)
          rw [drain_succ_of_take ht] at h ⊢
          exact ih h (Nat.le_add_right budget budget')

variable [Worklist.Bag ω]

theorem run_nil_of_take_eq_none (hheld : Worklist.Holds held items)
    (h : Worklist.take held = none) : Run g items [] := by
  rw [Worklist.Bag.eq_zero_of_take hheld h]
  exact .drained

theorem run_of_drain (hheld : Worklist.Holds held items)
    (h : drain g held before budget = some all) :
    ∃ taken, all = before.reverse ++ taken ∧ Run g items taken ∧ taken.length ≤ budget := by
  induction budget generalizing held items before with
  | zero =>
      cases ht : Worklist.take held with
      | none =>
          rw [drain_of_take_eq_none ht] at h
          cases h
          exact ⟨[], (List.append_nil _).symm, run_nil_of_take_eq_none hheld ht, Nat.zero_le _⟩
      | some step =>
          rw [drain_zero_of_take ht] at h
          cases h
  | succ budget ih =>
      cases ht : Worklist.take held with
      | none =>
          rw [drain_of_take_eq_none ht] at h
          cases h
          exact ⟨[], (List.append_nil _).symm, run_nil_of_take_eq_none hheld ht, Nat.zero_le _⟩
      | some step =>
          obtain ⟨c, held'⟩ := step
          rw [drain_succ_of_take ht] at h
          obtain ⟨rest, rfl⟩ := Multiset.exists_cons_of_mem (Worklist.Bag.mem_of_take hheld ht)
          obtain ⟨taken, rfl, hrun, hle⟩ := ih ((hheld.take ht).putAll (c.next g)) h
          refine ⟨c :: taken, ?_, .take c hrun, Nat.succ_le_succ hle⟩
          rw [List.reverse_cons, List.append_assoc, List.singleton_append]

theorem drain_isSome_of_run (hheld : Worklist.Holds held items) (hrun : Run g items taken)
    (hle : taken.length ≤ budget) : (drain g held before budget).isSome := by
  induction budget generalizing held items before taken with
  | zero =>
      cases List.length_eq_zero_iff.mp (Nat.le_zero.mp hle)
      cases ht : Worklist.take held with
      | none =>
          rw [drain_of_take_eq_none ht]
          rfl
      | some step =>
          have hmem := Worklist.Bag.mem_of_take hheld ht
          rw [hrun.eq_zero_of_nil] at hmem
          exact absurd hmem (Multiset.notMem_zero _)
  | succ budget ih =>
      cases ht : Worklist.take held with
      | none =>
          rw [drain_of_take_eq_none ht]
          rfl
      | some step =>
          obtain ⟨c, held'⟩ := step
          -- The run may take other configurations first, but not only others.
          obtain ⟨taken', hrun', hperm⟩ := hrun.exchange (Worklist.Bag.mem_of_take hheld ht)
          obtain ⟨rest, rfl, hrest⟩ := hrun'.of_cons
          rw [← hperm.length_eq, List.length_cons] at hle
          rw [drain_succ_of_take ht]
          exact ih ((hheld.take ht).putAll (c.next g)) hrest (Nat.le_of_succ_le_succ hle)

/-- What a search took is a run from the seed, within the budget. -/
theorem run_of_exploreIn (h : exploreIn ω budget g entered seed = some e) :
    e.grammar = g ∧ e.entered = entered ∧ Run g {.initial seed entered} e.taken ∧
      e.taken.length ≤ budget := by
  obtain ⟨all, hall, rfl⟩ := Option.map_eq_some_iff.mp h
  obtain ⟨taken, rfl, hrun, hle⟩ := run_of_drain (.single _) hall
  exact ⟨rfl, rfl, hrun, hle⟩

/-- A search drains just if there is a run from the seed that its budget reaches. -/
theorem exploreIn_isSome_iff :
    (exploreIn ω budget g entered seed).isSome ↔
      ∃ taken, Run g {.initial seed entered} taken ∧ taken.length ≤ budget := by
  constructor
  · intro h
    obtain ⟨e, he⟩ := Option.isSome_iff_exists.mp h
    obtain ⟨-, -, hrun, hle⟩ := run_of_exploreIn he
    exact ⟨e.taken, hrun, hle⟩
  · rintro ⟨taken, hrun, hle⟩
    rw [exploreIn, Option.isSome_map]
    exact drain_isSome_of_run (.single _) hrun hle

end Drain

section Explore

variable {g : Grammar} {budget : Nat} {entered : List String} {seed : List Pending}
  {order : Order} {e : Exploration}

theorem run_of_explore (h : explore budget g entered seed order = some e) :
    e.grammar = g ∧ e.entered = entered ∧ Run g {.initial seed entered} e.taken ∧
      e.taken.length ≤ budget := by
  cases order with
  | lifo => exact run_of_exploreIn (ω := Stack Configuration) h
  | fifo => exact run_of_exploreIn (ω := Queue Configuration) h

theorem explore_isSome_iff :
    (explore budget g entered seed order).isSome ↔
      ∃ taken, Run g {.initial seed entered} taken ∧ taken.length ≤ budget := by
  cases order with
  | lifo => exact exploreIn_isSome_iff (ω := Stack Configuration)
  | fifo => exact exploreIn_isSome_iff (ω := Queue Configuration)

theorem explore_mono {budget' : Nat} (h : explore budget g entered seed order = some e)
    (hle : budget ≤ budget') : explore budget' g entered seed order = some e := by
  cases order with
  | lifo =>
      obtain ⟨taken, htaken, rfl⟩ := Option.map_eq_some_iff.mp h
      exact Option.map_eq_some_iff.mpr ⟨taken, drain_mono htaken hle, rfl⟩
  | fifo =>
      obtain ⟨taken, htaken, rfl⟩ := Option.map_eq_some_iff.mp h
      exact Option.map_eq_some_iff.mpr ⟨taken, drain_mono htaken hle, rfl⟩

theorem drains_iff_exists_run :
    Drains g entered seed order ↔ ∃ taken, Run g {.initial seed entered} taken := by
  constructor
  · rintro ⟨budget, h⟩
    obtain ⟨taken, hrun, -⟩ := explore_isSome_iff.mp h
    exact ⟨taken, hrun⟩
  · rintro ⟨taken, hrun⟩
    exact ⟨taken.length, explore_isSome_iff.mpr ⟨taken, hrun, Nat.le_refl _⟩⟩

/-- A search took what it can reach from its seed. -/
theorem mem_taken_iff (h : explore budget g entered seed order = some e) {c : Configuration} :
    c ∈ e.taken ↔ Configuration.Reaches g (.initial seed entered) c := by
  obtain ⟨-, -, hrun, -⟩ := run_of_explore h
  rw [hrun.mem_iff]
  simp

end Explore

/-! ## What a search found -/

namespace Exploration

variable {e : Exploration}

theorem mem_findings_iff {candidate : Candidate} :
    candidate ∈ e.findings ↔ ∃ c ∈ e.taken, c.found = some candidate := by
  rw [findings, List.mem_filterMap]

theorem mem_tokens_iff {t : String} : t ∈ e.tokens ↔ .token t ∈ e.findings := by
  rw [tokens, Text.Vocabulary.mem_ofList, List.mem_filterMap]
  constructor
  · rintro ⟨_ | _, hmem, h⟩
    · cases h
      exact hmem
    · cases h
  · intro h
    exact ⟨.token t, h, rfl⟩

theorem isSentence_iff : e.isSentence = true ↔ .endOfSentence ∈ e.findings := by
  rw [isSentence, List.contains_iff_mem]

end Exploration

end SentenceGuide
