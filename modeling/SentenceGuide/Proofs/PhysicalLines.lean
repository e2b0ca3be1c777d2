import Mathlib.Data.List.SplitBy
import SentenceGuide.Bnf.Document
import SentenceGuide.Proofs.Lines
import SentenceGuide.Proofs.LogicalLines

/-!
# Which lines are joined

A line that ends in a backslash goes on in the next one.  So lines fall into runs: in a
run every line but the last ends in a backslash, and a run is as long as it can be.  The
logical line of a run is made of its lines, each cut before the backslash it ends in,
with spaces between them.

Joining does not look at the line that it has just read but at the text that it has
joined so far.  The two agree on every line but a blank one.  Behind a blank line the
text still ends as it did before, and what was cut off it may have left a backslash at
its end.  Then the run is over, but the joining goes on and takes in the next line.  The
logical lines are those of the runs just if no run that is over leaves such a text
behind (`joinLines_eq_numberRuns_iff`).
-/

namespace SentenceGuide.Bnf

open Text (isBlank)

variable {text line kept last before : List Char} {pre lines : List (List Char)} {run : Block}
  {first : Nat}

/-! ## Where a text is cut -/

/-- A line ends in a backslash, behind which there may be white space. -/
def goesOn (line : List Char) : Bool := (cutBackslash line).isSome

/-- A line before the backslash that it ends in, or the line if it ends in none. -/
def keptOf (line : List Char) : List Char := (cutBackslash line).getD line

theorem goesOn_eq_false_iff : goesOn line = false ↔ cutBackslash line = none := by
  rw [goesOn, Option.isSome_eq_false_iff, Option.isNone_iff_eq_none]

theorem keptOf_of_not_goesOn (h : goesOn line = false) : keptOf line = line := by
  rw [keptOf, goesOn_eq_false_iff.mp h, Option.getD_none]

/-- A text is cut at a backslash with nothing but white space behind it. -/
theorem cutBackslash_eq_some_iff :
    cutBackslash text = some kept ↔
      ∃ blank, text = kept ++ '\\' :: blank ∧ ∀ c ∈ blank, isBlank c = true := by
  constructor
  · intro h
    rw [cutBackslash] at h
    split at h
    · next before hbefore =>
        cases h
        have hsplit := List.takeWhile_append_dropWhile (p := isBlank) (l := text.reverse)
        rw [hbefore] at hsplit
        refine ⟨(text.reverse.takeWhile isBlank).reverse, ?_, ?_⟩
        · have hreverse := congrArg List.reverse hsplit
          rw [List.reverse_append, List.reverse_cons, List.reverse_reverse, List.append_assoc,
            List.singleton_append] at hreverse
          exact hreverse.symm
        · intro c hc
          exact List.all_eq_true.mp List.all_takeWhile c (List.mem_reverse.mp hc)
    · cases h
  · rintro ⟨blank, rfl, hblank⟩
    have hdrop : (kept ++ '\\' :: blank).reverse.dropWhile isBlank = '\\' :: kept.reverse := by
      rw [List.reverse_append, List.reverse_cons, List.append_assoc, List.dropWhile_append_of_pos]
      · rfl
      · intro c hc
        exact hblank c (List.mem_reverse.mp hc)
    rw [cutBackslash, hdrop]
    simp

/-- A line that ends in a backslash is cut there, whatever stands before it. -/
theorem cutBackslash_append_of_goesOn (h : goesOn line = true) (before : List Char) :
    cutBackslash (before ++ line) = some (before ++ keptOf line) := by
  obtain ⟨kept, hkept⟩ := Option.isSome_iff_exists.mp h
  obtain ⟨blank, hline, hblank⟩ := cutBackslash_eq_some_iff.mp hkept
  rw [keptOf, hkept, Option.getD_some, cutBackslash_eq_some_iff]
  exact ⟨blank, by rw [hline, List.append_assoc], hblank⟩

/-- A line that holds more than white space and ends in no backslash gives none to the
text before it. -/
theorem not_goesOn_append (h : goesOn line = false) (hline : ∃ c ∈ line, isBlank c = false)
    (before : List Char) : goesOn (before ++ line) = false := by
  rw [goesOn_eq_false_iff, Option.eq_none_iff_forall_ne_some] at h ⊢
  intro kept hkept
  obtain ⟨blank, heq, hblank⟩ := cutBackslash_eq_some_iff.mp hkept
  rcases List.append_eq_append_iff.mp heq with ⟨more, -, hmore⟩ | ⟨more, -, hmore⟩
  · exact h more (cutBackslash_eq_some_iff.mpr ⟨blank, hmore, hblank⟩)
  · cases more with
    | nil => exact h [] (cutBackslash_eq_some_iff.mpr ⟨blank, hmore.symm, hblank⟩)
    | cons c more =>
        -- The backslash stands before the line, which is all white space then.
        obtain ⟨-, rfl⟩ := List.cons.inj hmore
        obtain ⟨c, hc, hnot⟩ := hline
        exact Bool.false_ne_true (hnot.symm.trans (hblank c (List.mem_append_right more hc)))

/-! ## Runs -/

/-- The text of a run. -/
def Block.joined (run : Block) : List Char := [' '].intercalate (run.map keptOf)

/-- The longest runs in which every line but the last ends in a backslash. -/
def physicalRuns (lines : List (List Char)) : List Block := lines.splitBy fun line _ => goesOn line

/-- The texts of runs, each with the number of the first line of its run.  The first line
of all has the number `first`. -/
def numberRuns (first : Nat) : List Block → List (Nat × List Char)
  | [] => []
  | run :: runs => (first, run.joined) :: numberRuns (first + run.length) runs

/-- If the last line of a run ends in no backslash, the text of the run ends in none. -/
def Block.IsClosed (run : Block) : Prop :=
  ∀ last, run.getLast? = some last → goesOn last = false → goesOn run.joined = false

/-- What stands before the last line in the text of a run. -/
def Block.lead (pre : Block) : List Char := pre.flatMap fun line => keptOf line ++ [' ']

theorem joined_concat (pre : Block) (last : List Char) :
    Block.joined (pre ++ [last]) = Block.lead pre ++ keptOf last := by
  induction pre with
  | nil => simp [Block.joined, Block.lead]
  | cons line pre ih =>
      rw [Block.joined, List.map_append] at ih
      have hlead : Block.lead (line :: pre) = keptOf line ++ [' '] ++ Block.lead pre :=
        List.flatMap_cons
      rw [Block.joined, List.cons_append, List.map_cons, List.map_append,
        List.intercalate_cons_of_ne_nil (by simp), ih, hlead, List.append_assoc _ _ (keptOf last)]

theorem joined_append_space (hpre : pre ≠ []) : Block.joined pre ++ [' '] = Block.lead pre := by
  obtain ⟨pre, last, rfl⟩ := List.eq_nil_or_concat pre |>.resolve_left hpre
  rw [List.concat_eq_append, joined_concat, Block.lead, Block.lead, List.flatMap_append]
  simp

/-- A run is closed if its last line holds more than white space. -/
theorem isClosed_of_not_blank
    (h : ∃ last, run.getLast? = some last ∧ ∃ c ∈ last, isBlank c = false) : run.IsClosed := by
  obtain ⟨last, hlast, hmem⟩ := h
  intro last' hlast' hgoes
  rw [hlast] at hlast'
  cases hlast'
  obtain ⟨pre, rfl⟩ := List.getLast?_eq_some_iff.mp hlast
  rw [joined_concat, keptOf_of_not_goesOn hgoes]
  exact not_goesOn_append hgoes hmem _

theorem isChain_concat (hpre : ∀ line ∈ pre, goesOn line = true) (last : List Char) :
    (pre ++ [last]).IsChain fun line _ => goesOn line = true := by
  induction pre with
  | nil => exact .singleton last
  | cons line pre ih =>
      obtain ⟨hline, hpre⟩ := List.forall_mem_cons.mp hpre
      exact (ih hpre).cons fun _ _ => hline

/-- Lines that go on and one more line are a run, if there is no line behind it. -/
theorem physicalRuns_concat (hpre : ∀ line ∈ pre, goesOn line = true) (last : List Char) :
    physicalRuns (pre ++ [last]) = [pre ++ [last]] :=
  List.splitBy_of_isChain (by simp) (isChain_concat hpre last)

/-- A line that does not go on ends a run. -/
theorem physicalRuns_append (hpre : ∀ line ∈ pre, goesOn line = true)
    (hlast : goesOn last = false) (lines : List (List Char)) :
    physicalRuns (pre ++ last :: lines) = (pre ++ [last]) :: physicalRuns lines := by
  have hend : ∀ x ∈ (pre ++ [last]).getLast?, ∀ y ∈ lines.head?, goesOn x = false := by
    intro x hx y _
    rw [List.getLast?_concat] at hx
    cases hx
    exact hlast
  have happend : pre ++ last :: lines = (pre ++ [last]) ++ lines := by simp
  rw [happend, physicalRuns, List.splitBy_append hend, ← physicalRuns, physicalRuns_concat hpre,
    ← physicalRuns, List.singleton_append]

/-! ## Joining behind a run that goes on -/

/-- The logical line that is open behind some lines that go on. -/
def openedBy (first : Nat) : Block → OpenLine
  | [] => none
  | line :: lines => some (first, Block.joined (line :: lines))

theorem openedBy_concat (first : Nat) (pre : Block) (line : List Char) :
    openedBy first (pre ++ [line]) = some (first, Block.joined (pre ++ [line])) := by
  cases pre <;> rfl

theorem extend_openedBy (first : Nat) (pre : Block) (line : List Char) :
    (openedBy first pre).extend (first + pre.length) line = (first, pre.lead ++ line) := by
  cases pre with
  | nil => rfl
  | cons start pre =>
      rw [openedBy, OpenLine.extend, ← joined_append_space (List.cons_ne_nil start pre),
        List.append_assoc, List.singleton_append]

theorem joinLines_openedBy_nil (first : Nat) (pre : Block) :
    joinLines (openedBy first pre) [] =
      if pre = [] then [] else [readable (first, pre.joined)] := by
  cases pre <;> rfl

/-- A line that goes on is joined to those before it. -/
theorem joinLines_openedBy_of_goesOn {line : List Char} (h : goesOn line = true) (first : Nat)
    (pre : Block) (lines : List (List Char)) :
    joinLines (openedBy first pre) (numberFrom (first + pre.length) ((line :: lines).map .ok)) =
      joinLines (openedBy first (pre ++ [line]))
        (numberFrom (first + (pre ++ [line]).length) (lines.map .ok)) := by
  rw [joinLines_cons, extend_openedBy, openedBy_concat, joined_concat, List.length_append]
  simp only [cutBackslash_append_of_goesOn h]
  rfl

/-- At the end of a run its text is a logical line, or it is cut once more. -/
theorem joinLines_openedBy_of_not_goesOn {last : List Char} (h : goesOn last = false)
    (first : Nat) (pre : Block) (lines : List (List Char)) :
    joinLines (openedBy first pre) (numberFrom (first + pre.length) ((last :: lines).map .ok)) =
      match cutBackslash (Block.joined (pre ++ [last])) with
      | some kept =>
          joinLines (some (first, kept))
            (numberFrom (first + (pre ++ [last]).length) (lines.map .ok))
      | none =>
          readable (first, Block.joined (pre ++ [last])) ::
            joinLines none (numberFrom (first + (pre ++ [last]).length) (lines.map .ok)) := by
  rw [joinLines_cons, extend_openedBy, joined_concat, keptOf_of_not_goesOn h, List.length_append]
  rfl

/-! ## Joining behind a text that has been cut once more -/

/-- One text holds a backslash where the other one has been cut, to end there or to go on
with a space. -/
def PartedFrom (text kept : List Char) : Prop :=
  ∃ start rest, text = start ++ '\\' :: rest ∧ start ++ [' '] <+: kept ++ [' ']

theorem not_prefix_of_parted {start rest more : List Char}
    (h : start ++ [' '] <+: start ++ '\\' :: rest ++ more) : False := by
  rw [List.append_assoc, List.prefix_append_right_inj, List.cons_append,
    List.cons_prefix_cons] at h
  exact absurd h.1 (by decide)

theorem PartedFrom.ne (h : PartedFrom text kept) : kept ≠ text := by
  rintro rfl
  obtain ⟨start, rest, rfl, hstart⟩ := h
  exact not_prefix_of_parted hstart

theorem PartedFrom.extend_ne (h : PartedFrom text kept) (line : List Char) :
    kept ++ ' ' :: line ≠ text := by
  rintro rfl
  obtain ⟨start, rest, heq, hstart⟩ := h
  have hlonger : kept ++ [' '] <+: kept ++ ' ' :: line := ⟨line, by simp⟩
  rw [heq] at hlonger
  have hwhole := hstart.trans hlonger
  rw [← List.append_nil (start ++ '\\' :: rest)] at hwhole
  exact not_prefix_of_parted hwhole

theorem concat_prefix_of_ne {a b : Char} (hne : a ≠ b) {start more : List Char}
    (h : start ++ [a] <+: more ++ [b]) : start ++ [a] <+: more := by
  rcases List.prefix_concat_iff.mp h with heq | h
  · exact absurd (List.cons.inj (List.append_inj' heq rfl).2).1 hne
  · exact h

/-- Texts stay parted when one is extended and cut again. -/
theorem PartedFrom.cut (h : PartedFrom text kept) {line kept' : List Char}
    (hcut : cutBackslash (kept ++ ' ' :: line) = some kept') : PartedFrom text kept' := by
  obtain ⟨start, rest, rfl, hstart⟩ := h
  obtain ⟨blank, heq, -⟩ := cutBackslash_eq_some_iff.mp hcut
  have hlonger : kept ++ [' '] <+: kept ++ ' ' :: line := ⟨line, by simp⟩
  have hkept : kept' ++ ['\\'] <+: kept ++ ' ' :: line := ⟨blank, by rw [heq]; simp⟩
  rcases List.prefix_or_prefix_of_prefix (hstart.trans hlonger) hkept with hle | hle
  · -- The cut is behind the place where they part.
    have hbefore := concat_prefix_of_ne (by decide) hle
    exact ⟨start, rest, rfl, hbefore.trans (List.prefix_append kept' [' '])⟩
  · -- The cut is before that place, so they part there from now on.
    obtain ⟨more, hmore⟩ := concat_prefix_of_ne (by decide) hle
    refine ⟨kept', more ++ '\\' :: rest, ?_, List.prefix_refl _⟩
    rw [← hmore]
    simp

theorem partedFrom_of_cutBackslash (h : cutBackslash text = some kept) : PartedFrom text kept := by
  obtain ⟨blank, rfl, -⟩ := cutBackslash_eq_some_iff.mp h
  exact ⟨kept, blank, rfl, List.prefix_refl _⟩

/-- Behind such a text the next logical line has another text. -/
theorem PartedFrom.exists_joinLines (first : Nat) (lines : List (List Char)) :
    ∀ {kept} number, PartedFrom text kept →
      ∃ text' joined, joinLines (some (first, kept)) (numberFrom number (lines.map .ok)) =
        readable (first, text') :: joined ∧ text' ≠ text := by
  induction lines with
  | nil =>
      intro kept number h
      exact ⟨kept, [], rfl, h.ne⟩
  | cons line lines ih =>
      intro kept number h
      rw [joinLines_cons, OpenLine.extend]
      cases hcut : cutBackslash (kept ++ ' ' :: line) with
      | none => exact ⟨_, _, rfl, h.extend_ne line⟩
      | some kept' => exact ih (number + 1) (h.cut hcut)

/-! ## The logical lines of lines -/

/-- Behind lines that go on, the lines that follow are joined by runs just if all runs
are closed. -/
theorem joinLines_openedBy_eq_iff (lines : List (List Char)) :
    ∀ {pre : Block} (first : Nat), (∀ line ∈ pre, goesOn line = true) →
      (joinLines (openedBy first pre) (numberFrom (first + pre.length) (lines.map .ok)) =
          (numberRuns first (physicalRuns (pre ++ lines))).map readable ↔
        ∀ run ∈ physicalRuns (pre ++ lines), run.IsClosed) := by
  induction lines with
  | nil =>
      intro pre first hpre
      rw [List.append_nil, List.map_nil, numberFrom, joinLines_openedBy_nil]
      rcases List.eq_nil_or_concat pre with rfl | ⟨pre, last, rfl⟩
      · simp [physicalRuns, numberRuns]
      · rw [List.concat_eq_append] at hpre ⊢
        obtain ⟨hinit, hlast⟩ := List.forall_mem_append.mp hpre
        rw [physicalRuns_concat hinit, if_neg (by simp)]
        refine iff_of_true rfl ?_
        intro run hrun last' hlast' hgoes
        rw [List.mem_singleton.mp hrun, List.getLast?_concat] at hlast'
        cases hlast'
        rw [hlast last (List.mem_singleton_self last)] at hgoes
        cases hgoes
  | cons line lines ih =>
      intro pre first hpre
      cases hline : goesOn line with
      | true =>
          have hlonger : ∀ l ∈ pre ++ [line], goesOn l = true :=
            List.forall_mem_append.mpr ⟨hpre, by simpa using hline⟩
          have happend : pre ++ line :: lines = (pre ++ [line]) ++ lines := by simp
          rw [joinLines_openedBy_of_goesOn hline, happend]
          exact ih first hlonger
      | false =>
          have hrest := ih (first + (pre ++ [line]).length) (fun _ h => absurd h List.not_mem_nil)
          rw [joinLines_openedBy_of_not_goesOn hline, physicalRuns_append hpre hline, numberRuns,
            List.map_cons, List.forall_mem_cons]
          cases hcut : cutBackslash (Block.joined (pre ++ [line])) with
          | none =>
              have hclosed : Block.IsClosed (pre ++ [line]) :=
                fun _ _ _ => goesOn_eq_false_iff.mpr hcut
              rw [and_iff_right hclosed, ← List.nil_append lines, ← hrest, List.cons_inj_right]
              rfl
          | some kept =>
              obtain ⟨text', joined, heq, hne⟩ := (partedFrom_of_cutBackslash hcut).exists_joinLines
                first lines (first + (pre ++ [line]).length)
              refine iff_of_false ?_ ?_
              · simp only [heq, List.cons.injEq, readable, Prod.mk.injEq, Except.ok.injEq]
                exact fun h => hne h.1.2
              · rintro ⟨hclosed, -⟩
                have hopen := hclosed line (List.getLast?_concat ..) hline
                rw [goesOn_eq_false_iff, hcut] at hopen
                cases hopen

/-- The lines fall into runs.  The logical lines are the texts of the runs just if no run
that is over leaves a text that ends in a backslash.  Only a run whose last line is blank
can leave such a text. -/
theorem joinLines_eq_numberRuns_iff (first : Nat) (lines : List (List Char)) :
    (physicalRuns lines).flatten = lines ∧
      (joinLines none (numberFrom first (lines.map .ok)) =
          (numberRuns first (physicalRuns lines)).map readable ↔
        ∀ run ∈ physicalRuns lines, run.IsClosed) ∧
      ∀ run ∈ physicalRuns lines,
        (∃ last, run.getLast? = some last ∧ ∃ c ∈ last, isBlank c = false) → run.IsClosed := by
  refine ⟨List.flatten_splitBy _ lines, ?_, fun run _ => isClosed_of_not_blank⟩
  have hnil : ∀ line ∈ ([] : Block), goesOn line = true := fun _ h => absurd h List.not_mem_nil
  exact joinLines_openedBy_eq_iff lines first hnil

/-- The first line ends in two backslashes and the second is empty.  The third line is a
rule of its own. -/
def doubledBackslash : String := "S = \"a\" \\\\\n\nT = \"b\""

/-- The first two lines are a run, but the rule on the third line is joined to them, and the
text is refused. -/
theorem doubledBackslash_joined :
    physicalRuns (Text.lines doubledBackslash.toList) =
        [["S = \"a\" \\\\".toList, []], ["T = \"b\"".toList]] ∧
      joinLines none (numberFrom 1 ((Text.lines doubledBackslash.toList).map .ok)) =
        [(1, .ok "S = \"a\"  T = \"b\"".toList)] ∧
      joinLines none (numberFrom 1 ((Text.lines doubledBackslash.toList).map .ok)) ≠
        (numberRuns 1 (physicalRuns (Text.lines doubledBackslash.toList))).map readable ∧
      parse doubledBackslash "inline" = .error [⟨⟨"inline", 1⟩, .rule .strayArrow⟩] := by
  decide +kernel

end SentenceGuide.Bnf
