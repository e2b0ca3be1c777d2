import SentenceGuide.Text.Lines

/-!
# Lines that are written are read back

No line of a text holds a newline.  Conversely, lines without newlines can be
written one behind the other, each with a newline behind it.  If none of them ends
in a return, which its newline would take with it, the text is cut into these same
lines (`linesFrom_flatMap`).
-/

namespace SentenceGuide.Text

variable {α : Type} [DecidableEq α] {newline ret : α} {line start cs : List α}

theorem mem_of_mem_dropReturn {c : α} (h : c ∈ dropReturn ret line) : c ∈ line := by
  cases line with
  | nil => exact h
  | cons d line =>
      rw [dropReturn] at h
      split at h
      · exact List.mem_cons_of_mem d h
      · exact h

theorem newline_not_mem_of_mem_linesFrom (hstart : newline ∉ start)
    (h : line ∈ linesFrom newline ret start cs) : newline ∉ line := by
  induction cs generalizing start with
  | nil =>
      rw [linesFrom_nil] at h
      split at h
      · exact absurd h List.not_mem_nil
      · rw [List.mem_singleton.mp h]
        simpa using hstart
  | cons c cs ih =>
      rw [linesFrom] at h
      split at h
      · rcases List.mem_cons.mp h with rfl | h
        · exact fun hmem => hstart (mem_of_mem_dropReturn (List.mem_reverse.mp hmem))
        · exact ih List.not_mem_nil h
      · next hc =>
          refine ih ?_ h
          rw [List.mem_cons, not_or]
          exact ⟨Ne.symm hc, hstart⟩

/-- What holds no newline is the start of a line. -/
theorem linesFrom_append (h : newline ∉ line) (start cs : List α) :
    linesFrom newline ret start (line ++ cs) =
      linesFrom newline ret (line.reverse ++ start) cs := by
  induction line generalizing start with
  | nil => rfl
  | cons c line ih =>
      obtain ⟨hc, hline⟩ : newline ≠ c ∧ newline ∉ line := by simpa using h
      rw [List.cons_append, linesFrom_cons _ _ (Ne.symm hc), ih hline, List.reverse_cons,
        List.append_assoc, List.singleton_append]

theorem dropReturn_of_head? (h : line.head? ≠ some ret) : dropReturn ret line = line := by
  cases line with
  | nil => rfl
  | cons c line => rw [dropReturn, if_neg (by simpa using h)]

/-- Lines with a newline behind each are read back if no line holds a newline or ends
in a return. -/
theorem linesFrom_flatMap {lines : List (List α)}
    (h : ∀ line ∈ lines, newline ∉ line ∧ line.getLast? ≠ some ret) :
    linesFrom newline ret [] (lines.flatMap (· ++ [newline])) = lines := by
  induction lines with
  | nil => rfl
  | cons line lines ih =>
      obtain ⟨⟨hnewline, hret⟩, hlines⟩ := List.forall_mem_cons.mp h
      rw [← List.head?_reverse] at hret
      rw [List.flatMap_cons, List.append_assoc, linesFrom_append hnewline, List.append_nil,
        List.singleton_append, linesFrom_newline, dropReturn_of_head? hret, List.reverse_reverse,
        ih hlines]

omit [DecidableEq α] in
/-- The first of some parts has no separator before it, and every other one has. -/
theorem intercalate_cons (separator part : List α) (parts : List (List α)) :
    separator.intercalate (part :: parts) = part ++ parts.flatMap (separator ++ ·) := by
  induction parts generalizing part with
  | nil => rw [List.intercalate_singleton, List.flatMap_nil, List.append_nil]
  | cons next parts ih =>
      rw [List.intercalate_cons_cons, ih, List.flatMap_cons, List.append_assoc, List.append_assoc]

end SentenceGuide.Text
