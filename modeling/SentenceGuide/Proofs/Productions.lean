import SentenceGuide.Grammar.Basic

/-!
# The index finds every production

The index lists the places of a name by one walk over all names.  Looked up
again, these places give the productions of that name and no others, each as
often as it was declared and in the order of declaration.
-/

namespace SentenceGuide.Grammar

namespace Index

/-- The places at which a name stands among names of which the first is at `place`. -/
def placesFrom (name : String) (place : Nat) : List String → List Nat
  | [] => []
  | n :: names =>
      if n = name then place :: placesFrom name (place + 1) names
      else placesFrom name (place + 1) names

theorem places_addFrom (name : String) (names : List String) :
    ∀ (place : Nat) (index : Index),
      places name (addFrom place names index) =
        places name index ++ placesFrom name place names := by
  induction names with
  | nil =>
      intro place index
      rw [addFrom, placesFrom, List.append_nil]
  | cons n names ih =>
      intro place index
      rw [addFrom, ih, places_add, placesFrom]
      by_cases h : n = name
      · rw [if_pos h, if_pos h.symm, List.append_assoc, List.singleton_append]
      · rw [if_neg h, if_neg (Ne.symm h)]

theorem mem_placesFrom {name : String} {names : List String} :
    ∀ {place i : Nat}, i ∈ placesFrom name place names ↔
      ∃ k, i = place + k ∧ names[k]? = some name := by
  induction names with
  | nil => simp [placesFrom]
  | cons n names ih =>
      intro place i
      have hrest : i ∈ placesFrom name (place + 1) names ↔
          ∃ k, i = place + (k + 1) ∧ (n :: names)[k + 1]? = some name := by
        rw [ih]
        simp only [Nat.add_assoc, Nat.add_comm 1, List.getElem?_cons_succ]
      rw [placesFrom, ← Nat.or_exists_add_one, List.getElem?_cons_zero, ← hrest]
      by_cases h : n = name
      · simp [h]
      · simp [h]

theorem pairwise_placesFrom (name : String) (names : List String) :
    ∀ place, (placesFrom name place names).Pairwise (· < ·) := by
  induction names with
  | nil => exact fun _ => .nil
  | cons n names ih =>
      intro place
      rw [placesFrom]
      split
      · refine .cons ?_ (ih (place + 1))
        intro i hi
        obtain ⟨k, rfl, -⟩ := mem_placesFrom.mp hi
        omega
      · exact ih (place + 1)

theorem places_ofNames (name : String) (names : List String) :
    places name (ofNames names) = placesFrom name 0 names := by
  rw [ofNames, places_addFrom, places, List.nil_append]

end Index

/-- Reading productions off the places of their names filters them by name. -/
theorem filterMap_placesFrom (name : String) (ps : List Production) :
    ∀ before : List Production,
      (Index.placesFrom name before.length (ps.map (·.lhs))).filterMap ((before ++ ps)[·]?) =
        ps.filter (·.lhs = name) := by
  induction ps with
  | nil =>
      intro before
      rfl
  | cons p ps ih =>
      intro before
      have hrest := ih (before ++ [p])
      rw [List.length_append, List.length_singleton, List.append_assoc,
        List.singleton_append] at hrest
      rw [List.map_cons, Index.placesFrom]
      by_cases h : p.lhs = name
      · have hp : (before ++ p :: ps)[before.length]? = some p := by simp
        rw [if_pos h, List.filterMap_cons_some hp, hrest, List.filter_cons_of_pos (by simp [h])]
      · rw [if_neg h, hrest, List.filter_cons_of_neg (by simp [h])]

/-- The productions found for a name are those declared for it, in order. -/
theorem productionsFor_eq_filter (g : Grammar) (name : String) :
    g.productionsFor name = g.productions.filter (·.lhs = name) := by
  rw [productionsFor, g.index_eq, Index.places_ofNames]
  exact filterMap_placesFrom name g.productions []

/-- The index has the places at which the productions of a name stand. -/
theorem mem_places_iff {g : Grammar} {name : String} {place : Nat} :
    place ∈ g.index.places name ↔ ∃ p, g.productions[place]? = some p ∧ p.lhs = name := by
  rw [g.index_eq, Index.places_ofNames, Index.mem_placesFrom]
  simp

theorem nodup_places (g : Grammar) (name : String) : (g.index.places name).Nodup := by
  rw [g.index_eq, Index.places_ofNames]
  exact (Index.pairwise_placesFrom name _ 0).imp Nat.ne_of_lt

theorem mem_productionsFor {g : Grammar} {name : String} {p : Production} :
    p ∈ g.productionsFor name ↔ p ∈ g.productions ∧ p.lhs = name := by
  rw [productionsFor_eq_filter, List.mem_filter, decide_eq_true_iff]

end SentenceGuide.Grammar
