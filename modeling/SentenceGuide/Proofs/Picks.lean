import SentenceGuide.Composer

/-!
# Picks

A pick among some choices is one of them, whatever the words are (`pick_lt`).  If
there are no more choices than words, each of them is picked by some word
(`exists_pick_eq`): the smallest one whose product with the number of choices
reaches the choice.  The lower half of that product is less than the number of
choices, so the word is never refused.
-/

namespace SentenceGuide.Words

variable {n choice : Nat}

theorem choice_lt (hn : 0 < n) (w : UInt64) : Words.choice n w < n := by
  have hw : w.toNat < Nat.pow 2 64 := UInt64.toNat_lt w
  exact Nat.div_lt_of_lt_mul (Nat.mul_lt_mul_of_pos_right hw hn)

theorem pickFrom_lt (hn : 0 < n) (script : List UInt64) :
    ∀ drawn, (pickFrom n drawn script).1 < n := by
  induction script with
  | nil =>
      intro drawn
      exact hn
  | cons w script ih =>
      intro drawn
      rw [pickFrom]
      split
      · exact choice_lt hn w
      · exact ih (drawn + 1)

/-- A pick is one of the choices. -/
theorem pick_lt (hn : 0 < n) (words : Words) : (words.pick n).1 < n :=
  pickFrom_lt hn words.script words.drawn

theorem pred_le_zone (n : Nat) : n - 1 ≤ zone n :=
  Nat.sub_le_sub_right (Nat.le_mul_of_pos_right n (Nat.pow_pos (by decide))) 1

/-- The smallest word whose product reaches a choice. -/
def wordFor (n choice : Nat) : Nat := (choice * UInt64.size + (n - 1)) / n

/-- The product reaches the choice, but goes beyond it by less than `n`. -/
theorem exists_wordFor_mul_eq (hn : 0 < n) (choice : Nat) :
    ∃ low < n, wordFor n choice * n = choice * UInt64.size + low := by
  have hle : wordFor n choice * n ≤ choice * UInt64.size + (n - 1) := Nat.div_mul_le_self _ n
  have hlt : choice * UInt64.size + (n - 1) < n * (wordFor n choice + 1) :=
    Nat.lt_mul_div_succ _ hn
  rw [Nat.mul_add, Nat.mul_one, Nat.mul_comm n] at hlt
  exact ⟨wordFor n choice * n - choice * UInt64.size, by omega, by omega⟩

theorem wordFor_lt (hn : n ≤ UInt64.size) (hchoice : choice < n) :
    wordFor n choice < UInt64.size := by
  have hpos : 0 < n := Nat.lt_of_le_of_lt (Nat.zero_le choice) hchoice
  obtain ⟨low, hlow, heq⟩ := exists_wordFor_mul_eq hpos choice
  refine Nat.lt_of_mul_lt_mul_right (a := n) ?_
  calc wordFor n choice * n
      = choice * UInt64.size + low := heq
    _ < choice * UInt64.size + UInt64.size :=
        Nat.add_lt_add_left (Nat.lt_of_lt_of_le hlow hn) _
    _ = (choice + 1) * UInt64.size := (Nat.succ_mul ..).symm
    _ ≤ n * UInt64.size := Nat.mul_le_mul_right _ hchoice
    _ = UInt64.size * n := Nat.mul_comm ..

/-- A word that is accepted makes the pick. -/
theorem pick_of_accepts {w : UInt64} (h : accepts n w = true) (script : List UInt64)
    (drawn : Nat) :
    (Words.mk (w :: script) drawn).pick n = (Words.choice n w, ⟨script, drawn + 1⟩) := by
  rw [pick, pickFrom, if_pos h]

/-- A word that is refused is followed by the next one. -/
theorem pick_of_refused {w : UInt64} (h : accepts n w = false) (script : List UInt64)
    (drawn : Nat) :
    (Words.mk (w :: script) drawn).pick n = (Words.mk script (drawn + 1)).pick n := by
  rw [pick, pickFrom, if_neg (Bool.eq_false_iff.mp h), pick]

/-- Each choice is picked by some word in front of whatever words. -/
theorem exists_pick_eq (hn : n ≤ UInt64.size) (hchoice : choice < n) :
    ∃ w : UInt64, ∀ script drawn,
      (Words.mk (w :: script) drawn).pick n = (choice, ⟨script, drawn + 1⟩) := by
  have hpos : 0 < n := Nat.lt_of_le_of_lt (Nat.zero_le choice) hchoice
  obtain ⟨low, hlow, heq⟩ := exists_wordFor_mul_eq hpos choice
  have hlow64 : low < UInt64.size := Nat.lt_of_lt_of_le hlow hn
  let w : UInt64 := .ofNat (wordFor n choice)
  have hw : w.toNat = wordFor n choice := UInt64.toNat_ofNat_of_lt' (wordFor_lt hn hchoice)
  have hproduct : w.toNat * n = choice * UInt64.size + low := by rw [hw, heq]
  have hlower : w.toNat * n % UInt64.size = low := by
    rw [hproduct, Nat.mul_comm, Nat.mul_add_mod, Nat.mod_eq_of_lt hlow64]
  have hupper : w.toNat * n / UInt64.size = choice := by
    rw [hproduct, Nat.mul_comm, Nat.mul_add_div (by decide), Nat.div_eq_of_lt hlow64, Nat.add_zero]
  have haccepts : accepts n w = true := by
    refine decide_eq_true ?_
    calc w.toNat * n % UInt64.size = low := hlower
      _ ≤ n - 1 := Nat.le_sub_one_of_lt hlow
      _ ≤ zone n := pred_le_zone n
  refine ⟨w, fun script drawn => ?_⟩
  rw [pick_of_accepts haccepts]
  exact congrArg (·, (⟨script, drawn + 1⟩ : Words)) hupper

end SentenceGuide.Words
