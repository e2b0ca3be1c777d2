/-!
# Where each name is defined

An index says, for each name that a list of names holds, at which places it
stands, in increasing order.  It is built by one walk over the names, each of
which adds its place to the entry of its name.  Entries stand in the order in
which their names first occur.
-/

namespace SentenceGuide.Grammar

/-- For each name, the places at which it stands. -/
abbrev Index := List (String × List Nat)

namespace Index

/-- Adds one more place to the entry of a name, which may be new. -/
def add (name : String) (place : Nat) : Index → Index
  | [] => [(name, [place])]
  | (n, places) :: entries =>
      if n = name then (n, places ++ [place]) :: entries
      else (n, places) :: add name place entries

/-- Adds names that stand one behind the other, the first of them at `place`. -/
def addFrom (place : Nat) : List String → Index → Index
  | [], index => index
  | name :: names, index => addFrom (place + 1) names (add name place index)

/-- The index of a list of names. -/
def ofNames (names : List String) : Index := addFrom 0 names []

/-- The places of a name; none if the index has no entry for it. -/
def places (name : String) : Index → List Nat
  | [] => []
  | (n, places) :: entries => if n = name then places else Index.places name entries

/-- The names that have an entry. -/
def names (index : Index) : List String := index.map (·.1)

/-! ## Small laws -/

theorem places_add (name other : String) (place : Nat) (index : Index) :
    places other (add name place index) =
      if other = name then places other index ++ [place] else places other index := by
  induction index with
  | nil => simp only [add, places, eq_comm (a := name)]; split <;> simp
  | cons entry index ih =>
      obtain ⟨n, ps⟩ := entry
      simp only [add]
      by_cases h : n = name
      · subst h
        by_cases ho : n = other <;> simp [places, ho, eq_comm (a := other)]
      · rw [if_neg h]
        by_cases ho : n = other
        · subst ho; simp [places, h]
        · simp [places, ho, ih]

theorem mem_names_add {name other : String} {place : Nat} {index : Index} :
    other ∈ names (add name place index) ↔ other = name ∨ other ∈ names index := by
  induction index with
  | nil => simp [add, names]
  | cons entry index ih =>
      obtain ⟨n, ps⟩ := entry
      simp only [add]
      by_cases h : n = name
      · subst h; simp [names]
      · rw [if_neg h]
        simp only [names, List.map_cons, List.mem_cons] at ih ⊢
        rw [ih, or_left_comm]

/-! ## Tests -/

example : ofNames ["S", "D", "S"] = [("S", [0, 2]), ("D", [1])] := by decide +kernel

end Index

end SentenceGuide.Grammar
