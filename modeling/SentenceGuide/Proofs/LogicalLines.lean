import Mathlib.Data.List.Induction
import SentenceGuide.Bnf.LogicalLine
import SentenceGuide.Text.Lines

/-!
# Logical lines are blocks of lines

The lines of a text at hand can all be read, so they are cut into blocks that
stand one behind the other.  A logical line is made of the lines of a block, and
its number is that of the first of them (`exists_blocks`).  So the numbers of
logical lines go up.

A logical line is looked at if it is neither blank nor a comment.  That is decided
behind the white space it starts with, and the white space it ends with plays no
part (`isRuleLine_iff`).
-/

namespace SentenceGuide.Bnf

open Text (isBlank trimStart trimEnd)

/-- Lines that stand one behind the other and make one logical line. -/
abbrev Block := List (List Char)

/-- The text of a block that begins with a text and goes on with some lines.  Where
the text so far ends in a backslash it is cut before it. -/
def Block.textFrom (text : List Char) : Block → List Char
  | [] => (cutBackslash text).getD text
  | line :: lines => textFrom ((cutBackslash text).getD text ++ ' ' :: line) lines

/-- The text of a block. -/
def Block.text : Block → List Char
  | [] => []
  | line :: lines => textFrom line lines

/-- The logical lines of blocks, each with the number of the first line of its
block.  The first line of all has the number `first`. -/
def numberBlocks (first : Nat) : List Block → List (Nat × List Char)
  | [] => []
  | block :: blocks => (first, block.text) :: numberBlocks (first + block.length) blocks

/-- A line of a text at hand, with its number. -/
def readable (line : Nat × List Char) : NumberedLine := (line.1, .ok line.2)

variable {first number : Nat} {kept text line : List Char} {lines : List (List Char)}
  {blocks : List Block}

/-! ## Blocks -/

theorem joinLines_cons (opened : OpenLine) (number : Nat) (line : List Char)
    (lines : List (List Char)) :
    joinLines opened (numberFrom number ((line :: lines).map .ok)) =
      match cutBackslash (opened.extend number line).2 with
      | some kept =>
          joinLines (some ((opened.extend number line).1, kept))
            (numberFrom (number + 1) (lines.map .ok))
      | none =>
          readable (opened.extend number line) ::
            joinLines none (numberFrom (number + 1) (lines.map .ok)) := rfl

/-- Some lines behind a logical line that is open are the rest of its block and
other blocks, and behind none they are blocks. -/
theorem joinLines_eq_numberBlocks (lines : List (List Char)) :
    (∀ number, ∃ blocks : List Block, blocks.flatten = lines ∧ (∀ b ∈ blocks, b ≠ []) ∧
      joinLines none (numberFrom number (lines.map .ok)) =
        (numberBlocks number blocks).map readable) ∧
    ∀ first number text kept, cutBackslash text = some kept →
      ∃ (rest : Block) (blocks : List Block), rest ++ blocks.flatten = lines ∧
        (∀ b ∈ blocks, b ≠ []) ∧
        joinLines (some (first, kept)) (numberFrom number (lines.map .ok)) =
          readable (first, rest.textFrom text) ::
            (numberBlocks (number + rest.length) blocks).map readable := by
  induction lines with
  | nil =>
      constructor
      · intro number
        exact ⟨[], rfl, by simp, rfl⟩
      · intro first number text kept hcut
        refine ⟨[], [], rfl, by simp, ?_⟩
        simp [joinLines, numberFrom, numberBlocks, readable, Block.textFrom, hcut]
  | cons line lines ih =>
      obtain ⟨ihnone, ihsome⟩ := ih
      constructor
      · intro number
        cases hline : cutBackslash line with
        | none =>
            obtain ⟨blocks, hflatten, hblocks, heq⟩ := ihnone (number + 1)
            refine ⟨[line] :: blocks, by simp [hflatten], by simpa using hblocks, ?_⟩
            simp only [joinLines_cons, OpenLine.extend, hline, heq]
            simp [numberBlocks, Block.text, Block.textFrom, hline]
        | some kept =>
            obtain ⟨rest, blocks, hflatten, hblocks, heq⟩ :=
              ihsome number (number + 1) line kept hline
            refine ⟨(line :: rest) :: blocks, by simp [← hflatten], by simpa using hblocks, ?_⟩
            simp only [joinLines_cons, OpenLine.extend, hline, heq]
            rw [Nat.add_assoc, Nat.add_comm 1]
            rfl
      · intro first number text kept hcut
        cases hline : cutBackslash (kept ++ ' ' :: line) with
        | none =>
            obtain ⟨blocks, hflatten, hblocks, heq⟩ := ihnone (number + 1)
            refine ⟨[line], blocks, by simp [hflatten], hblocks, ?_⟩
            simp only [joinLines_cons, OpenLine.extend, hline, heq]
            simp [Block.textFrom, hcut, hline]
        | some kept' =>
            obtain ⟨rest, blocks, hflatten, hblocks, heq⟩ :=
              ihsome first (number + 1) (kept ++ ' ' :: line) kept' hline
            refine ⟨line :: rest, blocks, by simp [← hflatten], hblocks, ?_⟩
            simp only [joinLines_cons, OpenLine.extend, hline, heq]
            rw [Block.textFrom, hcut, Option.getD_some, List.length_cons, Nat.add_assoc,
              Nat.add_comm 1]

/-! ## The logical lines of a text -/

/-- The logical lines of a text at hand, with their numbers. -/
def logicalLines (text : List Char) : List (Nat × List Char) :=
  (joinLines none (numberFrom 1 ((Text.lines text).map .ok))).filterMap fun
    | (number, .ok line) => some (number, line)
    | (_, .error _) => none

theorem filterMap_readable (lines : List (Nat × List Char)) :
    (lines.map readable).filterMap (fun
      | (number, .ok line) => some (number, line)
      | (_, .error _) => none) = lines := by
  rw [List.filterMap_map]
  exact List.filterMap_some

/-- The lines of a text are cut into blocks, and its logical lines are the texts of
these with the numbers of their first lines. -/
theorem exists_blocks (text : List Char) :
    ∃ blocks : List Block, blocks.flatten = Text.lines text ∧ (∀ b ∈ blocks, b ≠ []) ∧
      joinLines none (numberFrom 1 ((Text.lines text).map .ok)) =
        (logicalLines text).map readable ∧
      logicalLines text = numberBlocks 1 blocks := by
  obtain ⟨blocks, hflatten, hblocks, heq⟩ := (joinLines_eq_numberBlocks (Text.lines text)).1 1
  have hlogical : logicalLines text = numberBlocks 1 blocks := by
    rw [logicalLines, heq, filterMap_readable]
  exact ⟨blocks, hflatten, hblocks, hlogical ▸ heq, hlogical⟩

theorem le_of_mem_numberBlocks (h : number ∈ (numberBlocks first blocks).map (·.1)) :
    first ≤ number := by
  induction blocks generalizing first with
  | nil => exact absurd h List.not_mem_nil
  | cons block blocks ih =>
      rw [numberBlocks, List.map_cons, List.mem_cons] at h
      rcases h with rfl | h
      · exact Nat.le_refl _
      · exact Nat.le_trans (Nat.le_add_right first block.length) (ih h)

theorem pairwise_numberBlocks (h : ∀ b ∈ blocks, b ≠ []) :
    ((numberBlocks first blocks).map (·.1)).Pairwise (· < ·) := by
  induction blocks generalizing first with
  | nil => exact .nil
  | cons block blocks ih =>
      obtain ⟨hblock, hblocks⟩ := List.forall_mem_cons.mp h
      rw [numberBlocks, List.map_cons, List.pairwise_cons]
      refine ⟨?_, ih hblocks⟩
      intro number hnumber
      have hle := le_of_mem_numberBlocks hnumber
      have hpos := List.length_pos_iff.mpr hblock
      exact Nat.lt_of_lt_of_le (Nat.lt_add_of_pos_right hpos) hle

theorem pairwise_logicalLines (text : List Char) :
    ((logicalLines text).map (·.1)).Pairwise (· < ·) := by
  obtain ⟨blocks, -, hblocks, -, heq⟩ := exists_blocks text
  rw [heq]
  exact pairwise_numberBlocks hblocks

/-! ## Lines that are looked at -/

/-- The text without the white space around it. -/
def trim (line : List Char) : List Char := trimEnd (trimStart line)

/-- The logical lines of a text that are neither blank nor comments. -/
def ruleLines (text : List Char) : List (Nat × List Char) :=
  (logicalLines text).filter fun (_, line) => trim line ≠ [] ∧ (trim line).head? ≠ some ';'

theorem pairwise_ruleLines (text : List Char) :
    ((ruleLines text).map (·.1)).Pairwise (· < ·) :=
  (pairwise_logicalLines text).sublist (List.filter_sublist.map _)

theorem head?_trimEnd {c : Char} (hc : isBlank c = false) (cs : List Char) :
    (trimEnd (c :: cs)).head? = some c := by
  induction cs using List.reverseRecOn with
  | nil => rw [← List.nil_append [c], Text.trimEnd_append_of_not_blank hc]; rfl
  | append_singleton cs d ih =>
      rw [← List.cons_append]
      cases hd : isBlank d with
      | true => rw [Text.trimEnd_append_blank hd, ih]
      | false => rw [Text.trimEnd_append_of_not_blank hd]; rfl

theorem head?_trimStart_not_blank {line : List Char} {c : Char}
    (h : (trimStart line).head? = some c) : isBlank c = false := by
  have hhead := List.head?_dropWhile_not isBlank line
  rwa [← trimStart, h] at hhead

/-- The white space that a line ends with does not change what it starts with. -/
theorem head?_trim (line : List Char) : (trim line).head? = (trimStart line).head? := by
  cases h : trimStart line with
  | nil => rw [trim, h]; rfl
  | cons c cs =>
      have hc : isBlank c = false := head?_trimStart_not_blank (by rw [h]; rfl)
      rw [trim, h, head?_trimEnd hc, List.head?_cons]

theorem isRuleLine_iff (line : Nat × List Char) :
    isRuleLine (readable line) = true ↔ trim line.2 ≠ [] ∧ (trim line.2).head? ≠ some ';' := by
  rw [Ne, ← List.head?_eq_none_iff, head?_trim, readable, isRuleLine]
  cases trimStart line.2 with
  | nil => simp
  | cons c cs => simp

/-- The lines of a text that are looked at are its rule lines. -/
theorem filter_joinLines (text : List Char) :
    (joinLines none (numberFrom 1 ((Text.lines text).map .ok))).filter isRuleLine =
      (ruleLines text).map readable := by
  obtain ⟨-, -, -, heq, -⟩ := exists_blocks text
  rw [heq, List.filter_map, ruleLines]
  congr 1
  apply List.filter_congr
  intro line _
  rw [Bool.eq_iff_iff, Function.comp_apply, isRuleLine_iff, decide_eq_true_iff]

/-- A line that is looked at is not all white space. -/
theorem exists_not_blank_of_isRuleLine {line : Nat × List Char}
    (h : isRuleLine (readable line) = true) : ∃ c ∈ line.2, isBlank c = false := by
  obtain ⟨hne, -⟩ := (isRuleLine_iff line).mp h
  rw [Ne, ← List.head?_eq_none_iff, head?_trim] at hne
  obtain ⟨c, hc⟩ := Option.ne_none_iff_exists'.mp hne
  exact ⟨c, (List.dropWhile_sublist isBlank).subset (List.mem_of_head? hc),
    head?_trimStart_not_blank hc⟩

theorem exists_not_blank_of_mem_ruleLines {text : List Char} {line : Nat × List Char}
    (h : line ∈ ruleLines text) : ∃ c ∈ line.2, isBlank c = false := by
  rw [ruleLines, List.mem_filter, decide_eq_true_iff] at h
  exact exists_not_blank_of_isRuleLine ((isRuleLine_iff line).mpr h.2)

end SentenceGuide.Bnf
