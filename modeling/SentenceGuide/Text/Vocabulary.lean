/-!
# Vocabularies

A vocabulary is a finite set of words.  It is kept as the list of its words in
increasing order, each once, so equal sets are equal lists and the list can be
shown as it stands.  Words are ordered character by character, by code point.
-/

namespace SentenceGuide.Text

/-- A finite set of words, in increasing order and without repeats. -/
abbrev Vocabulary := List String

namespace Vocabulary

/-- The vocabulary with one more word. -/
def insert (word : String) : Vocabulary → Vocabulary
  | [] => [word]
  | w :: words =>
      if word < w then word :: w :: words
      else if word = w then w :: words
      else w :: insert word words

/-- The set of the words in a list. -/
def ofList (words : List String) : Vocabulary := words.foldl (fun set word => set.insert word) []

/-! ## The words of a vocabulary -/

@[simp] theorem mem_insert {x word : String} {words : Vocabulary} :
    x ∈ insert word words ↔ x = word ∨ x ∈ words := by
  induction words with
  | nil => simp [insert]
  | cons w words ih =>
      simp only [insert]
      split
      · simp
      · split
        · next h => subst h; simp
        · simp [ih, or_left_comm]

theorem mem_foldl_insert {x : String} {words : List String} {set : Vocabulary} :
    x ∈ words.foldl (fun set word => insert word set) set ↔ x ∈ words ∨ x ∈ set := by
  induction words generalizing set with
  | nil => simp
  | cons w words ih => simp [ih, or_assoc, or_left_comm]

@[simp] theorem mem_ofList {x : String} {words : List String} : x ∈ ofList words ↔ x ∈ words := by
  simp [ofList, mem_foldl_insert]

/-! ## The order of a vocabulary -/

theorem pairwise_insert {word : String} {words : Vocabulary} (h : words.Pairwise (· < ·)) :
    (insert word words).Pairwise (· < ·) := by
  induction words with
  | nil => simp [insert]
  | cons w words ih =>
      rw [List.pairwise_cons] at h
      simp only [insert]
      split
      · next hlt =>
          refine List.pairwise_cons.2 ⟨?_, List.pairwise_cons.2 h⟩
          intro x hx
          rcases List.mem_cons.1 hx with rfl | hx
          · exact hlt
          · exact String.lt_trans hlt (h.1 x hx)
      · next hlt =>
          split
          · exact List.pairwise_cons.2 h
          · next hne =>
              refine List.pairwise_cons.2 ⟨?_, ih h.2⟩
              intro x hx
              rcases mem_insert.1 hx with rfl | hx
              · rcases String.le_total w x with hle | hle
                · exact Decidable.byContradiction fun hn =>
                    hne (String.le_antisymm (String.not_lt.1 hn) hle)
                · exact absurd hle (fun hle => hne (String.le_antisymm hle (String.not_lt.1 hlt)))
              · exact h.1 x hx

theorem pairwise_ofList (words : List String) : (ofList words).Pairwise (· < ·) := by
  have : ∀ set : Vocabulary, set.Pairwise (· < ·) →
      (words.foldl (fun set word => insert word set) set).Pairwise (· < ·) := by
    induction words with
    | nil => exact fun _ h => h
    | cons w words ih => exact fun _ h => ih _ (pairwise_insert h)
  exact this [] .nil

/-! ## Tests -/

example : ofList ["b", "a", "b"] = ["a", "b"] := by decide +kernel

end Vocabulary

end SentenceGuide.Text
