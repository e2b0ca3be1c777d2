/-!
# Worklists

Something that holds items until they are taken out again.  A stack gives back
the item put last, and a queue the item put first.

`Stack.items` and `Queue.items` list what is held in the order in which it will
be taken.  Everything there is to say about the two is how putting and taking
change that list.
-/

namespace SentenceGuide

/-- Something that items can be put into and taken out of. -/
class Worklist (ω : Type) (α : outParam Type) where
  /-- Holds nothing. -/
  empty : ω
  /-- Puts an item in. -/
  put : α → ω → ω
  /-- Takes an item out, unless nothing is held. -/
  take : ω → Option (α × ω)

/-- Puts items in, one after the other. -/
def Worklist.putAll {ω α : Type} [Worklist ω α] (items : List α) (held : ω) : ω :=
  items.foldl (fun held item => Worklist.put item held) held

/-- How items are taken out. -/
inductive Order where
  /-- The last one put comes first. -/
  | lifo
  /-- The first one put comes first. -/
  | fifo
  deriving DecidableEq, Repr

/-! ## The stack -/

/-- Items held so that the last one put comes first. -/
structure Stack (α : Type) where
  /-- The items, in the order in which they will be taken. -/
  items : List α

instance {α : Type} : Worklist (Stack α) α where
  empty := ⟨[]⟩
  put item held := ⟨item :: held.items⟩
  take
    | ⟨[]⟩ => none
    | ⟨item :: items⟩ => some (item, ⟨items⟩)

/-! ## The queue -/

/-- Items held so that the first one put comes first. -/
structure Queue (α : Type) where
  /-- The items that will be taken next, in that order. -/
  front : List α
  /-- The items behind those, the last one put first. -/
  back : List α

/-- The items, in the order in which they will be taken. -/
def Queue.items {α : Type} (held : Queue α) : List α := held.front ++ held.back.reverse

instance {α : Type} : Worklist (Queue α) α where
  empty := ⟨[], []⟩
  put item held := ⟨held.front, item :: held.back⟩
  take held :=
    match held.front with
    | item :: front => some (item, ⟨front, held.back⟩)
    | [] =>
        match held.back.reverse with
        | [] => none
        | item :: front => some (item, ⟨front, []⟩)

/-! ## Putting and taking -/

variable {α : Type}

@[simp] theorem Stack.items_empty : (Worklist.empty : Stack α).items = [] := rfl

@[simp] theorem Stack.items_put (item : α) (held : Stack α) :
    (Worklist.put item held).items = item :: held.items := rfl

theorem Stack.items_putAll (items : List α) (held : Stack α) :
    (Worklist.putAll items held).items = items.reverse ++ held.items := by
  induction items generalizing held with
  | nil => rfl
  | cons item items ih =>
      have hput : (Worklist.putAll (item :: items) held).items =
          items.reverse ++ item :: held.items := ih (Worklist.put item held)
      rw [hput, List.reverse_cons, List.append_assoc, List.singleton_append]

theorem Stack.take_eq_none_iff {held : Stack α} :
    Worklist.take held = none ↔ held.items = [] := by
  obtain ⟨_ | _⟩ := held <;> simp [Worklist.take]

theorem Stack.items_of_take {held held' : Stack α} {item : α}
    (h : Worklist.take held = some (item, held')) : held.items = item :: held'.items := by
  obtain ⟨_ | _⟩ := held
  · cases h
  · cases h; rfl

@[simp] theorem Queue.items_empty : (Worklist.empty : Queue α).items = [] := rfl

@[simp] theorem Queue.items_put (item : α) (held : Queue α) :
    (Worklist.put item held).items = held.items ++ [item] := by
  simp [Worklist.put, Queue.items]

theorem Queue.items_putAll (items : List α) (held : Queue α) :
    (Worklist.putAll items held).items = held.items ++ items := by
  induction items generalizing held with
  | nil => exact (List.append_nil held.items).symm
  | cons item items ih =>
      have hput : (Worklist.putAll (item :: items) held).items =
          (Worklist.put item held).items ++ items := ih (Worklist.put item held)
      rw [hput, Queue.items_put, List.append_assoc, List.singleton_append]

theorem Queue.take_eq_none_iff {held : Queue α} :
    Worklist.take held = none ↔ held.items = [] := by
  obtain ⟨_ | ⟨a, front⟩, back⟩ := held
  · simp only [Worklist.take, Queue.items, List.nil_append]
    split
    · next h => simp [h]
    · next h => simp [h]
  · simp [Worklist.take, Queue.items]

theorem Queue.items_of_take {held held' : Queue α} {item : α}
    (h : Worklist.take held = some (item, held')) : held.items = item :: held'.items := by
  obtain ⟨_ | ⟨a, front⟩, back⟩ := held
  · simp only [Worklist.take] at h
    split at h
    · cases h
    · next hb => cases h; simp [Queue.items, hb]
  · cases h; rfl

end SentenceGuide
