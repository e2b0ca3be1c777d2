import SentenceGuide.Proofs.Productions
import SentenceGuide.Proofs.Termination

/-!
# The order of a search

The configurations of a search make a tree.  The seed is at its root, and the children
of a node are the configurations that the search puts in when it takes the node, in the
order in which it puts them.  Trees here are finite, and the seed has one just if the
search drains (`drains_iff_exists_unfolds`).

A search is a walk over this tree.  With a stack it goes down at once, and to the child
put last first, so it takes the configurations in preorder with the children of every
node from the last to the first.  With a queue it goes through the tree level by level.
What a stack holds are the roots of trees that it has still to walk through one after the
other.  What a queue holds is the rest of a level and the front of the next one, and
this need not be said, for the levels of a row of trees without the first root are those
of the row with the children of that root at its end (`levelOrderOfAll_node_cons`).
-/

namespace SentenceGuide

/-! ## Trees of configurations -/

/-- A configuration and trees beneath it. -/
inductive SearchTree where
  /-- The configuration at the root, and what is beneath it, in order. -/
  | node (c : Configuration) (children : List SearchTree)

namespace SearchTree

/-- The configuration at the root. -/
def root : SearchTree → Configuration
  | node c _ => c

mutual

/-- How many configurations a tree has. -/
def size : SearchTree → Nat
  | node _ children => sizeOfAll children + 1

/-- How many configurations a row of trees has. -/
def sizeOfAll : List SearchTree → Nat
  | [] => 0
  | t :: ts => t.size + sizeOfAll ts

end

mutual

/-- How many levels a tree has. -/
def height : SearchTree → Nat
  | node _ children => heightOfAll children + 1

/-- How many levels a row of trees has. -/
def heightOfAll : List SearchTree → Nat
  | [] => 0
  | t :: ts => max t.height (heightOfAll ts)

end

mutual

/-- The configurations of a tree, each before those beneath it, and the last child of a
node with all that is beneath it before the one in front of it. -/
def preorderFromLast : SearchTree → List Configuration
  | node c children => c :: preorderFromLastOfAll children

/-- The configurations of a row of trees, from the last tree to the first. -/
def preorderFromLastOfAll : List SearchTree → List Configuration
  | [] => []
  | t :: ts => preorderFromLastOfAll ts ++ t.preorderFromLast

end

mutual

/-- The configurations that lie a number of steps beneath the root, from the first child
to the last. -/
def level : SearchTree → Nat → List Configuration
  | node c _, 0 => [c]
  | node _ children, n + 1 => levelOfAll children n

/-- The configurations that lie a number of steps beneath the roots of a row. -/
def levelOfAll : List SearchTree → Nat → List Configuration
  | [], _ => []
  | t :: ts, n => t.level n ++ levelOfAll ts n

end

/-- The configurations of a tree level by level, each level from the first child to the
last. -/
def levelOrder (t : SearchTree) : List Configuration := (List.range t.height).flatMap t.level

/-- The first levels of a row of trees, one behind the other. -/
def levelsOfAll (ts : List SearchTree) (n : Nat) : List Configuration :=
  (List.range n).flatMap (levelOfAll ts)

/-- The configurations of a row of trees level by level. -/
def levelOrderOfAll (ts : List SearchTree) : List Configuration := levelsOfAll ts (heightOfAll ts)

/-- The children of every node are the configurations that follow it, in order. -/
inductive Unfolds (g : Grammar) : SearchTree → Prop where
  | node {c : Configuration} {children : List SearchTree} :
      children.map root = c.next g → (∀ t ∈ children, Unfolds g t) → Unfolds g (node c children)

variable {g : Grammar} {t t' : SearchTree} {ts ts' children : List SearchTree}
  {c : Configuration} {n : Nat}

/-! ## Rows of trees -/

theorem sizeOfAll_append : sizeOfAll (ts ++ ts') = sizeOfAll ts + sizeOfAll ts' := by
  induction ts with
  | nil => rw [List.nil_append, sizeOfAll, Nat.zero_add]
  | cons t ts ih => rw [List.cons_append, sizeOfAll, sizeOfAll, ih, Nat.add_assoc]

theorem sizeOfAll_perm (h : ts.Perm ts') : sizeOfAll ts = sizeOfAll ts' := by
  induction h with
  | nil => rfl
  | cons t _ ih => rw [sizeOfAll, sizeOfAll, ih]
  | swap t t' ts =>
      simp only [sizeOfAll]
      omega
  | trans _ _ ih ih' => exact ih.trans ih'

theorem sizeOfAll_singleton (t : SearchTree) : sizeOfAll [t] = t.size := rfl

theorem sizeOfAll_node_cons :
    sizeOfAll (node c children :: ts) = sizeOfAll (children ++ ts) + 1 := by
  rw [sizeOfAll, size, sizeOfAll_append, Nat.add_right_comm]

theorem heightOfAll_append : heightOfAll (ts ++ ts') = max (heightOfAll ts) (heightOfAll ts') := by
  induction ts with
  | nil => rw [List.nil_append, heightOfAll, Nat.zero_max]
  | cons t ts ih => rw [List.cons_append, heightOfAll, heightOfAll, ih, Nat.max_assoc]

theorem levelOfAll_append : levelOfAll (ts ++ ts') n = levelOfAll ts n ++ levelOfAll ts' n := by
  induction ts with
  | nil => rw [List.nil_append, levelOfAll, List.nil_append]
  | cons t ts ih => rw [List.cons_append, levelOfAll, levelOfAll, ih, List.append_assoc]

theorem preorderFromLastOfAll_eq_flatMap :
    preorderFromLastOfAll ts = ts.reverse.flatMap preorderFromLast := by
  induction ts with
  | nil => rfl
  | cons t ts ih =>
      rw [preorderFromLastOfAll, ih, List.reverse_cons, List.flatMap_append, List.flatMap_singleton]

/-! ## Levels -/

mutual

theorem level_eq_nil : ∀ (t : SearchTree) {n : Nat}, t.height ≤ n → t.level n = []
  | node _ children, 0, h => by
      rw [height] at h
      exact absurd h (Nat.not_succ_le_zero _)
  | node _ children, n + 1, h => by
      rw [height] at h
      exact levelOfAll_eq_nil children (Nat.le_of_succ_le_succ h)

/-- Nothing lies as deep as there are levels. -/
theorem levelOfAll_eq_nil :
    ∀ (ts : List SearchTree) {n : Nat}, heightOfAll ts ≤ n → levelOfAll ts n = []
  | [], _, _ => rfl
  | t :: ts, n, h => by
      rw [heightOfAll, Nat.max_le] at h
      rw [levelOfAll, level_eq_nil t h.1, levelOfAll_eq_nil ts h.2, List.nil_append]

end

theorem levelsOfAll_succ (ts : List SearchTree) (n : Nat) :
    levelsOfAll ts (n + 1) = levelsOfAll ts n ++ levelOfAll ts n := by
  rw [levelsOfAll, List.range_succ, List.flatMap_append, List.flatMap_singleton, levelsOfAll]

theorem levelsOfAll_eq_levelOrderOfAll (h : heightOfAll ts ≤ n) :
    levelsOfAll ts n = levelOrderOfAll ts := by
  induction n, h using Nat.le_induction with
  | base => rfl
  | succ n h ih => rw [levelsOfAll_succ, ih, levelOfAll_eq_nil ts h, List.append_nil]

/-- The first root of a row is the first of all levels, and behind it stand the levels of
the row with the children of that root at its end.  The last level of the other trees has
no counterpart there. -/
theorem levelsOfAll_node_cons (c : Configuration) (children ts : List SearchTree) (n : Nat) :
    levelsOfAll (node c children :: ts) (n + 1) =
      c :: (levelsOfAll (ts ++ children) n ++ levelOfAll ts n) := by
  induction n with
  | zero =>
      rw [levelsOfAll_succ]
      rfl
  | succ n ih =>
      rw [levelsOfAll_succ, ih, levelsOfAll_succ (ts ++ children), levelOfAll_append,
        levelOfAll, level]
      simp only [List.cons_append, List.append_assoc]

theorem levelOrderOfAll_node_cons :
    levelOrderOfAll (node c children :: ts) = c :: levelOrderOfAll (ts ++ children) := by
  let n := max (heightOfAll ts) (heightOfAll children)
  have hall : heightOfAll (node c children :: ts) ≤ n + 1 := by
    rw [heightOfAll, height]
    omega
  have hrow : heightOfAll (ts ++ children) ≤ n := by rw [heightOfAll_append]
  have hts : heightOfAll ts ≤ n := Nat.le_max_left _ _
  rw [← levelsOfAll_eq_levelOrderOfAll hall, levelsOfAll_node_cons,
    levelsOfAll_eq_levelOrderOfAll hrow, levelOfAll_eq_nil ts hts, List.append_nil]

theorem levelOrderOfAll_singleton (t : SearchTree) : levelOrderOfAll [t] = t.levelOrder := by
  have hlevel : levelOfAll [t] = t.level := by
    funext n
    exact List.append_nil _
  rw [levelOrderOfAll, levelsOfAll, hlevel, levelOrder, heightOfAll, heightOfAll, Nat.max_zero]

/-! ## The tree of a search -/

theorem eq_of_map_root_eq (hts : ∀ t ∈ ts, ∀ t', Unfolds g t' → t.root = t'.root → t = t')
    (hts' : ∀ t' ∈ ts', Unfolds g t') (h : ts.map root = ts'.map root) : ts = ts' := by
  induction ts generalizing ts' with
  | nil =>
      rw [List.map_nil, eq_comm, List.map_eq_nil_iff] at h
      exact h.symm
  | cons t ts ih =>
      cases ts' with
      | nil => cases h
      | cons t' ts' =>
          obtain ⟨hroot, hrest⟩ := List.cons.inj h
          rw [List.forall_mem_cons] at hts hts'
          rw [hts.1 t' hts'.1 hroot, ih hts.2 hts'.2 hrest]

/-- A tree is determined by its root. -/
theorem Unfolds.eq_of_root_eq (h : Unfolds g t) (h' : Unfolds g t') (hroot : t.root = t'.root) :
    t = t' := by
  induction h generalizing t' with
  | @node c children hchildren _ ih =>
      cases h' with
      | @node c' children' hchildren' hunfolds =>
          obtain rfl : c = c' := hroot
          rw [eq_of_map_root_eq (fun t ht t' ht' => ih t ht ht') hunfolds
            (hchildren.trans hchildren'.symm)]

theorem exists_row_of_forall :
    ∀ cs : List Configuration, (∀ c ∈ cs, ∃ t, Unfolds g t ∧ t.root = c) →
      ∃ ts : List SearchTree, ts.map root = cs ∧ ∀ t ∈ ts, Unfolds g t
  | [], _ => ⟨[], rfl, fun _ ht => absurd ht List.not_mem_nil⟩
  | c :: cs, h => by
      rw [List.forall_mem_cons] at h
      obtain ⟨t, ht, rfl⟩ := h.1
      obtain ⟨ts, rfl, hts⟩ := exists_row_of_forall cs h.2
      exact ⟨t :: ts, rfl, List.forall_mem_cons.mpr ⟨ht, hts⟩⟩

/-- A configuration from which every way on ends has a tree. -/
theorem exists_unfolds_of_ends (h : Configuration.Ends g c) : ∃ t, Unfolds g t ∧ t.root = c := by
  induction h with
  | intro c _ ih =>
      obtain ⟨children, hchildren, hunfolds⟩ := exists_row_of_forall (c.next g) ih
      exact ⟨node c children, .node hchildren hunfolds, rfl⟩

theorem Unfolds.ends (h : Unfolds g t) : Configuration.Ends g t.root := by
  induction h with
  | @node c children hchildren _ ih =>
      constructor
      intro d hd
      rw [Configuration.Follows, root, ← hchildren, List.mem_map] at hd
      obtain ⟨t, ht, rfl⟩ := hd
      exact ih t ht

/-- A search drains just if its seed has a tree. -/
theorem drains_iff_exists_unfolds {entered : List String} {seed : List Pending} {order : Order} :
    Drains g entered seed order ↔ ∃ t, Unfolds g t ∧ t.root = .initial seed entered := by
  rw [drains_iff_ends]
  constructor
  · exact exists_unfolds_of_ends
  · rintro ⟨t, ht, hroot⟩
    exact hroot ▸ ht.ends

end SearchTree

open SearchTree (root Unfolds sizeOfAll preorderFromLastOfAll levelOrderOfAll)

/-! ## Walks -/

/-- How the searches with a type of worklists walk through rows of trees. -/
structure Walk (ω : Type) [Worklist ω Configuration] where
  /-- What is held, in the order in which it will be taken. -/
  items : ω → List Configuration
  /-- The row that is left when the first root of a row has been taken: its children, put
  in among the other trees. -/
  arrange : List SearchTree → List SearchTree → List SearchTree
  /-- What is taken in the end. -/
  taken : List SearchTree → List Configuration
  /-- At first nothing is held. -/
  items_empty : items Worklist.empty = []
  /-- Nothing is taken only if nothing is held. -/
  items_of_take_eq_none {held : ω} : Worklist.take held = none → items held = []
  /-- The first item is taken. -/
  items_of_take {held held' : ω} {c : Configuration} :
    Worklist.take held = some (c, held') → items held = c :: items held'
  /-- Roots of children are put in among the other roots as the row is arranged. -/
  items_putAll {held : ω} {ts : List SearchTree} (children : List SearchTree) :
    items held = ts.map root →
      items (Worklist.putAll (children.map root) held) = (arrange children ts).map root
  /-- No tree is lost or doubled. -/
  arrange_perm (children ts : List SearchTree) : (arrange children ts).Perm (children ++ ts)
  /-- Nothing is taken from an empty row. -/
  taken_nil : taken [] = []
  /-- The first root is taken, and then what is left. -/
  taken_node_cons (c : Configuration) (children ts : List SearchTree) :
    taken (.node c children :: ts) = c :: taken (arrange children ts)

namespace Walk

variable {ω : Type} [Worklist ω Configuration] {g : Grammar} {entered : List String}
  {seed : List Pending} {t : SearchTree} {ts children : List SearchTree} {held held' : ω}
  {before : List Configuration} {c : Configuration}

theorem eq_nil_of_take_eq_none (w : Walk ω) (hheld : w.items held = ts.map root)
    (h : Worklist.take held = none) : ts = [] := by
  rw [w.items_of_take_eq_none h, eq_comm, List.map_eq_nil_iff] at hheld
  exact hheld

theorem exists_cons_of_take (w : Walk ω) (hheld : w.items held = ts.map root)
    (h : Worklist.take held = some (c, held')) :
    ∃ children rest, ts = .node c children :: rest ∧ w.items held' = rest.map root := by
  rw [w.items_of_take h, eq_comm, List.map_eq_cons_iff] at hheld
  obtain ⟨⟨_, children⟩, rest, rfl, rfl, hrest⟩ := hheld
  exact ⟨children, rest, rfl, hrest.symm⟩

theorem unfolds_arrange (w : Walk ω) (h : ∀ t ∈ SearchTree.node c children :: ts, Unfolds g t) :
    children.map root = c.next g ∧ ∀ t ∈ w.arrange children ts, Unfolds g t := by
  rw [List.forall_mem_cons] at h
  obtain ⟨hnode, hts⟩ := h
  cases hnode with
  | node hchildren hunfolds =>
      refine ⟨hchildren, ?_⟩
      intro t ht
      rcases List.mem_append.mp ((w.arrange_perm children ts).mem_iff.mp ht) with ht | ht
      · exact hunfolds t ht
      · exact hts t ht

theorem drain_eq_of_take_eq_none (w : Walk ω) (budget : Nat) (hheld : w.items held = ts.map root)
    (h : Worklist.take held = none) :
    drain g held before budget =
      if sizeOfAll ts ≤ budget then some (before.reverse ++ w.taken ts) else none := by
  rw [drain_of_take_eq_none h, w.eq_nil_of_take_eq_none hheld h, w.taken_nil, List.append_nil,
    sizeOfAll, if_pos (Nat.zero_le budget)]

/-- A search that holds the roots of a row of trees walks through them, if its budget is as
large as the row. -/
theorem drain_eq (w : Walk ω) (budget : Nat) (hts : ∀ t ∈ ts, Unfolds g t)
    (hheld : w.items held = ts.map root) :
    drain g held before budget =
      if sizeOfAll ts ≤ budget then some (before.reverse ++ w.taken ts) else none := by
  induction budget generalizing held before ts with
  | zero =>
      cases ht : Worklist.take held with
      | none => exact w.drain_eq_of_take_eq_none 0 hheld ht
      | some step =>
          obtain ⟨c, held'⟩ := step
          obtain ⟨children, rest, rfl, -⟩ := w.exists_cons_of_take hheld ht
          rw [drain_zero_of_take ht, SearchTree.sizeOfAll_node_cons,
            if_neg (Nat.not_succ_le_zero _)]
  | succ budget ih =>
      cases ht : Worklist.take held with
      | none => exact w.drain_eq_of_take_eq_none (budget + 1) hheld ht
      | some step =>
          obtain ⟨c, held'⟩ := step
          obtain ⟨children, rest, rfl, hrest⟩ := w.exists_cons_of_take hheld ht
          obtain ⟨hchildren, hrow⟩ := w.unfolds_arrange hts
          have hsize : sizeOfAll (.node c children :: rest) =
              sizeOfAll (w.arrange children rest) + 1 := by
            rw [SearchTree.sizeOfAll_perm (w.arrange_perm children rest),
              SearchTree.sizeOfAll_node_cons]
          rw [drain_succ_of_take ht, ← hchildren, ih hrow (w.items_putAll children hrest), hsize,
            w.taken_node_cons, List.reverse_cons, List.append_assoc, List.singleton_append]
          exact if_congr Nat.succ_le_succ_iff.symm rfl rfl

/-- A search walks through the tree of its seed. -/
theorem exploreIn_eq (w : Walk ω) (budget : Nat) (ht : Unfolds g t)
    (hroot : t.root = .initial seed entered) :
    exploreIn ω budget g entered seed =
      if t.size ≤ budget then some ⟨g, entered, w.taken [t]⟩ else none := by
  have hitems : w.items (Worklist.put (.initial seed entered) Worklist.empty) = [t].map root := by
    have hempty : w.items Worklist.empty = List.map root [] := w.items_empty
    have hput := w.items_putAll [t] hempty
    rw [List.perm_singleton.mp (w.arrange_perm [t] [])] at hput
    rwa [← hroot]
  rw [exploreIn, w.drain_eq budget (by simpa using ht) hitems, SearchTree.sizeOfAll_singleton]
  split
  · rfl
  · rfl

/-- A stack walks through one tree after the other, and puts the children of a root in
front, the last one first. -/
def stack : Walk (Stack Configuration) where
  items := Stack.items
  arrange children ts := children.reverse ++ ts
  taken ts := ts.flatMap SearchTree.preorderFromLast
  items_empty := Stack.items_empty
  items_of_take_eq_none := Stack.take_eq_none_iff.mp
  items_of_take := Stack.items_of_take
  items_putAll children h := by rw [Stack.items_putAll, h, List.map_append, List.map_reverse]
  arrange_perm children ts := (List.reverse_perm children).append_right ts
  taken_nil := rfl
  taken_node_cons c children ts := by
    rw [List.flatMap_cons, SearchTree.preorderFromLast, SearchTree.preorderFromLastOfAll_eq_flatMap,
      List.flatMap_append, List.cons_append]

/-- A queue walks through a row of trees level by level, and puts the children of the first
root behind the other trees. -/
def queue : Walk (Queue Configuration) where
  items := Queue.items
  arrange children ts := ts ++ children
  taken := levelOrderOfAll
  items_empty := Queue.items_empty
  items_of_take_eq_none := Queue.take_eq_none_iff.mp
  items_of_take := Queue.items_of_take
  items_putAll children h := by rw [Queue.items_putAll, h, List.map_append]
  arrange_perm _ _ := List.perm_append_comm
  taken_nil := rfl
  taken_node_cons _ _ _ := SearchTree.levelOrderOfAll_node_cons

theorem taken_stack_singleton (t : SearchTree) : stack.taken [t] = t.preorderFromLast :=
  List.append_nil _

theorem taken_queue_singleton (t : SearchTree) : queue.taken [t] = t.levelOrder :=
  SearchTree.levelOrderOfAll_singleton t

end Walk

/-- If a search drains, its configurations make one tree, of which the children of a node
are what follows it, one for each production of the name on top in the order of their
declaration.  With a stack the search takes the tree in preorder, the children of a node
from the last to the first, and with a queue level by level, each from the first to the
last.  Either way it drains just if its budget is as large as the tree. -/
theorem searches_in_tree_order {g : Grammar} {entered : List String} {seed : List Pending}
    {order : Order} (h : Drains g entered seed order) :
    (∃ t, (Unfolds g t ∧ t.root = .initial seed entered) ∧
      (∀ t', Unfolds g t' → t'.root = .initial seed entered → t' = t) ∧
      ∀ budget,
        explore budget g entered seed .lifo =
          (if t.size ≤ budget then some ⟨g, entered, t.preorderFromLast⟩ else none) ∧
        explore budget g entered seed .fifo =
          (if t.size ≤ budget then some ⟨g, entered, t.levelOrder⟩ else none)) ∧
    ∀ name rest unmatched,
      Configuration.next g ⟨.symbol (.nonterminal name) :: rest, unmatched⟩ =
        (g.productions.filter (·.lhs = name)).map (.expand rest unmatched) := by
  obtain ⟨t, ht, hroot⟩ := SearchTree.drains_iff_exists_unfolds.mp h
  refine ⟨⟨t, ⟨ht, hroot⟩, ?_, ?_⟩, ?_⟩
  · intro t' ht' hroot'
    exact ht'.eq_of_root_eq ht (hroot'.trans hroot.symm)
  · intro budget
    have hlifo := Walk.stack.exploreIn_eq budget ht hroot
    have hfifo := Walk.queue.exploreIn_eq budget ht hroot
    rw [Walk.taken_stack_singleton] at hlifo
    rw [Walk.taken_queue_singleton] at hfifo
    exact ⟨hlifo, hfifo⟩
  · intro name rest unmatched
    rw [Configuration.next, Grammar.productionsFor_eq_filter]

theorem searches_in_tree_order_optionals :
    Drains optionals ["x"] [.symbol (.nonterminal "S"), .sentinel] .fifo ∧
    ∃ t, (Unfolds optionals t ∧
        t.root = .initial [.symbol (.nonterminal "S"), .sentinel] ["x"]) ∧
      explore 40 optionals ["x"] [.symbol (.nonterminal "S"), .sentinel] .lifo =
        some ⟨optionals, ["x"], t.preorderFromLast⟩ ∧
      explore 40 optionals ["x"] [.symbol (.nonterminal "S"), .sentinel] .fifo =
        some ⟨optionals, ["x"], t.levelOrder⟩ := by
  have hdrained : (explore 40 optionals ["x"]
      [.symbol (.nonterminal "S"), .sentinel] .fifo).isSome := by
    decide +kernel
  have hdrains : Drains optionals ["x"] [.symbol (.nonterminal "S"), .sentinel] .fifo :=
    ⟨40, hdrained⟩
  obtain ⟨⟨t, ht, -, hwalks⟩, -⟩ := searches_in_tree_order hdrains
  obtain ⟨hlifo, hfifo⟩ := hwalks 40
  have hsize : t.size ≤ 40 := by
    rw [hfifo] at hdrained
    by_contra hlarge
    rw [if_neg hlarge] at hdrained
    cases hdrained
  rw [if_pos hsize] at hlifo hfifo
  exact ⟨hdrains, t, ht, hlifo, hfifo⟩

end SentenceGuide
