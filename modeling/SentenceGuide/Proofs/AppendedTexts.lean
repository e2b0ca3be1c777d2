import SentenceGuide.Proofs.PhysicalLines
import SentenceGuide.Proofs.RuleFiles
import SentenceGuide.Proofs.RuleTexts

/-!
# Texts behind one another

A text ends cleanly if it ends with a line, and if joining its lines leaves no logical
line open.  Then the logical lines of a text behind it are those that it has by itself,
with higher numbers (`logicalLines_append`).  What is done with logical lines does not
depend on their numbers, so the rules and the faults of the two texts stand one behind
the other.

Reading is more than that, since the start name and the choice between a grammar and
faults are decided by both texts together (`followedBy`).  A text whose lines are all
blank or comments has no rule, so it only moves the lines behind it down
(`parse_append`).
-/

namespace SentenceGuide.Bnf

variable {text more between : List Char} {file : String} {lines : List (List Char)}

/-! ## What is left open -/

/-- The logical line that is still open behind some lines, the first of which stand behind
one that may have been open before. -/
def leftOpen (opened : OpenLine) : List NumberedLine → OpenLine
  | [] => opened
  | (_, .error _) :: lines => leftOpen opened lines
  | (number, .ok line) :: lines =>
      let (first, text) := opened.extend number line
      leftOpen ((cutBackslash text).map (first, ·)) lines

/-- Some lines have their logical lines whatever stands behind them, but for the one that
they leave open. -/
theorem exists_joinLines_append (lines : List NumberedLine) :
    ∀ opened, ∃ joined, ∀ more,
      joinLines opened (lines ++ more) = joined ++ joinLines (leftOpen opened lines) more := by
  induction lines with
  | nil => exact fun opened => ⟨[], fun more => rfl⟩
  | cons line lines ih =>
      intro opened
      obtain ⟨number, content⟩ := line
      cases content with
      | error fault =>
          obtain ⟨joined, hjoined⟩ := ih opened
          refine ⟨(number, .error fault) :: joined, fun more => ?_⟩
          rw [List.cons_append, joinLines, hjoined, leftOpen, List.cons_append]
      | ok line =>
          simp only [List.cons_append, joinLines, leftOpen]
          cases cutBackslash (opened.extend number line).2 with
          | some kept => exact ih (some ((opened.extend number line).1, kept))
          | none =>
              obtain ⟨joined, hjoined⟩ := ih none
              refine ⟨((opened.extend number line).1, .ok (opened.extend number line).2) :: joined,
                fun more => ?_⟩
              rw [hjoined, List.cons_append]
              rfl

theorem joinLines_append {first second : List NumberedLine} (h : leftOpen none first = none) :
    joinLines none (first ++ second) = joinLines none first ++ joinLines none second := by
  obtain ⟨joined, hjoined⟩ := exists_joinLines_append first none
  have hfirst := hjoined []
  rw [h, List.append_nil, joinLines, List.append_nil] at hfirst
  rw [hjoined, h, hfirst]

/-! ## Lines with higher numbers -/

/-- A line that stands some lines further down. -/
def moved {α : Type} (n : Nat) (line : Nat × α) : Nat × α := (line.1 + n, line.2)

theorem numberFrom_append (first second : List (Except ReadFault (List Char))) :
    ∀ number, numberFrom number (first ++ second) =
      numberFrom number first ++ numberFrom (number + first.length) second := by
  induction first with
  | nil => exact fun number => rfl
  | cons line lines ih =>
      intro number
      rw [List.cons_append, numberFrom, ih, numberFrom, List.cons_append, List.length_cons,
        Nat.add_assoc, Nat.add_comm 1]

/-- Lines that all stand further down have the same logical lines, further down. -/
theorem joinLines_moved (n : Nat) (lines : List (List Char)) :
    ∀ (opened : OpenLine) (number : Nat),
      joinLines (opened.map (moved n)) (numberFrom (number + n) (lines.map .ok)) =
        (joinLines opened (numberFrom number (lines.map .ok))).map (moved n) := by
  induction lines with
  | nil =>
      intro opened number
      cases opened <;> rfl
  | cons line lines ih =>
      intro opened number
      have hextend : OpenLine.extend (number + n) line (opened.map (moved n)) =
          moved n (opened.extend number line) := by
        cases opened <;> rfl
      rw [joinLines_cons, joinLines_cons, hextend, moved, Nat.add_right_comm number n 1]
      cases cutBackslash (opened.extend number line).2 with
      | some kept => exact ih (some ((opened.extend number line).1, kept)) (number + 1)
      | none =>
          have hrest := ih none (number + 1)
          rw [Option.map_none] at hrest
          simp only [hrest]
          rfl

/-! ## The logical lines of two texts -/

/-- A text ends with the end of a line, and its lines leave no logical line open. -/
structure EndsCleanly (text : List Char) : Prop where
  ends : text = [] ∨ text.getLast? = some '\n'
  closed : leftOpen none (numberFrom 1 ((Text.lines text).map .ok)) = none

theorem lines_append (h : text = [] ∨ text.getLast? = some '\n') (more : List Char) :
    Text.lines (text ++ more) = Text.lines text ++ Text.lines more := by
  rcases h with rfl | h
  · rfl
  · obtain ⟨text, rfl⟩ := List.getLast?_eq_some_iff.mp h
    rw [List.append_assoc, List.singleton_append]
    exact Text.linesFrom_append_newline '\n' '\r' [] text more

theorem logicalLines_append (h : EndsCleanly text) (more : List Char) :
    logicalLines (text ++ more) =
      logicalLines text ++ (logicalLines more).map (moved (Text.lines text).length) := by
  have hmoved := joinLines_moved (Text.lines text).length (Text.lines more) none 1
  obtain ⟨-, -, -, hmore, -⟩ := exists_blocks more
  rw [Option.map_none, hmore, List.map_map] at hmoved
  have hreadable : moved (Text.lines text).length ∘ readable =
      readable ∘ moved (Text.lines text).length := rfl
  rw [logicalLines, lines_append h.ends, List.map_append, numberFrom_append, List.length_map,
    joinLines_append h.closed, hmoved, hreadable, ← List.map_map, List.filterMap_append,
    filterMap_readable]
  rfl

theorem ruleLines_append (h : EndsCleanly text) (more : List Char) :
    ruleLines (text ++ more) =
      ruleLines text ++ (ruleLines more).map (moved (Text.lines text).length) := by
  rw [ruleLines, logicalLines_append h, List.filter_append, List.filter_map]
  rfl

/-! ## What two texts give -/

/-- A fault some lines further down. -/
def LocatedFault.moved (n : Nat) (fault : LocatedFault) : LocatedFault :=
  ⟨⟨fault.location.file, fault.location.line + n⟩, fault.fault⟩

theorem outcome_moved (file : String) (n : Nat) (line : Nat × List Char) :
    outcome file (moved n line) = (outcome file line).mapError (LocatedFault.moved n) := by
  obtain ⟨number, text⟩ := line
  cases hline : Rule.ofLine text with
  | ok rule =>
      rw [moved, outcome_of_ok file _ hline, outcome_of_ok file _ hline]
      rfl
  | error kind =>
      rw [moved, outcome_of_error file _ hline, outcome_of_error file _ hline]
      rfl

theorem filterMap_faultOf_mapError {ε α : Type} (f : ε → ε) (outcomes : List (Except ε α)) :
    (outcomes.map (Except.mapError f)).filterMap faultOf =
      (outcomes.filterMap faultOf).map f := by
  rw [List.filterMap_map, List.map_filterMap]
  congr 1
  funext outcome
  cases outcome <;> rfl

theorem filterMap_toOption_mapError {ε α : Type} (f : ε → ε) (outcomes : List (Except ε α)) :
    (outcomes.map (Except.mapError f)).filterMap Except.toOption =
      outcomes.filterMap Except.toOption := by
  rw [List.filterMap_map]
  congr 1
  funext outcome
  cases outcome <;> rfl

/-- The first of some rules names the start, and it comes from the first outcomes if there
are any. -/
theorem grammarOfRules_append {first second : List (Except LocatedFault Rule)}
    (h : first.filterMap faultOf = []) :
    grammarOfRules (first.filterMap Except.toOption ++ second.filterMap Except.toOption) =
      .ofProductions
        (if first = [] then (grammarOfRules (second.filterMap Except.toOption)).start
          else (grammarOfRules (first.filterMap Except.toOption)).start)
        ((grammarOfRules (first.filterMap Except.toOption)).productions ++
          (grammarOfRules (second.filterMap Except.toOption)).productions) := by
  cases first with
  | nil => rfl
  | cons outcome first =>
      cases outcome with
      | error fault => cases h
      | ok rule =>
          rw [if_neg (List.cons_ne_nil _ first), grammarOfRules, List.flatMap_append]
          rfl

/-- What is read of two texts: the productions of both, or the faults of both.  The second
text stands `n` lines further down.  It gives the start name if there is no rule in the
first. -/
def followedBy (hasRule : Bool) (n : Nat) : Loaded → Loaded → Loaded
  | .ok g, .ok h =>
      .ok (.ofProductions (if hasRule then g.start else h.start) (g.productions ++ h.productions))
  | first, second => .error (faultsOf first ++ (faultsOf second).map (LocatedFault.moved n))

theorem collect_append (first second : List (Except LocatedFault Rule)) (n : Nat) :
    collect (first ++ second.map (Except.mapError (LocatedFault.moved n))) =
      followedBy (first ≠ []) n (collect first) (collect second) := by
  have hfaults : (first ++ second.map (Except.mapError (LocatedFault.moved n))).filterMap faultOf =
      first.filterMap faultOf ++ (second.filterMap faultOf).map (LocatedFault.moved n) := by
    rw [List.filterMap_append, filterMap_faultOf_mapError]
  by_cases hfirst : first.filterMap faultOf = []
  · by_cases hsecond : second.filterMap faultOf = []
    · rw [hfirst, hsecond] at hfaults
      rw [collect_of_no_fault hfaults, collect_of_no_fault hfirst, collect_of_no_fault hsecond,
        List.filterMap_append, filterMap_toOption_mapError, grammarOfRules_append hfirst,
        followedBy]
      simp
    · rw [collect_of_faults (by simp [hfaults, hsecond]), hfaults, collect_of_faults hsecond,
        followedBy, faultsOf_collect, faultsOf]
      exact nofun
  · rw [collect_of_faults (by simp [hfaults, hfirst]), hfaults, collect_of_faults hfirst,
      followedBy, faultsOf_collect, faultsOf]
    exact nofun

/-! ## Lines that only move others -/

/-- A line that is blank or a comment and does not end in a backslash, behind which there may
be white space. -/
structure IsIdle (line : List Char) : Prop where
  noRule : trim line = [] ∨ (trim line).head? = some ';'
  closed : goesOn line = false

/-- A fault that stands behind the first `n` lines is moved down, and every other one stays. -/
def movedBehind (n k : Nat) (fault : LocatedFault) : LocatedFault :=
  if n < fault.location.line then LocatedFault.moved k fault else fault

/-- Lines that are idle are no rules and leave nothing open. -/
theorem joinLines_idle (h : ∀ line ∈ lines, IsIdle line) (number : Nat) :
    leftOpen none (numberFrom number (lines.map .ok)) = none ∧
      (joinLines none (numberFrom number (lines.map .ok))).filter isRuleLine = [] := by
  induction lines generalizing number with
  | nil => exact ⟨rfl, rfl⟩
  | cons line lines ih =>
      obtain ⟨hline, hlines⟩ := List.forall_mem_cons.mp h
      obtain ⟨hopen, hjoined⟩ := ih hlines (number + 1)
      have hcut : cutBackslash line = none := goesOn_eq_false_iff.mp hline.closed
      have hrule : ¬ isRuleLine (readable (number, line)) = true := by
        rw [isRuleLine_iff, not_and_or, not_not, not_not]
        exact hline.noRule
      constructor
      · rw [List.map_cons, numberFrom, leftOpen, OpenLine.extend]
        simp only [hcut]
        exact hopen
      · rw [joinLines_cons, OpenLine.extend]
        simp only [hcut]
        rw [List.filter_cons_of_neg hrule, hjoined]

theorem endsCleanly_of_idle (hends : between = [] ∨ between.getLast? = some '\n')
    (h : ∀ line ∈ Text.lines between, IsIdle line) : EndsCleanly between :=
  ⟨hends, (joinLines_idle h 1).1⟩

theorem ruleLines_of_idle (h : ∀ line ∈ Text.lines between, IsIdle line) :
    ruleLines between = [] := by
  have hlines := filter_joinLines between
  rw [(joinLines_idle h 1).2] at hlines
  exact List.map_eq_nil_iff.mp hlines.symm

theorem lt_of_mem_numberBlocks {blocks : List Block} {first : Nat} {line : Nat × List Char}
    (hblocks : ∀ b ∈ blocks, b ≠ []) (h : line ∈ numberBlocks first blocks) :
    first ≤ line.1 ∧ line.1 < first + blocks.flatten.length := by
  induction blocks generalizing first with
  | nil => exact absurd h List.not_mem_nil
  | cons block blocks ih =>
      obtain ⟨hblock, hblocks⟩ := List.forall_mem_cons.mp hblocks
      have hpos := List.length_pos_iff.mpr hblock
      rw [List.flatten_cons, List.length_append]
      rw [numberBlocks, List.mem_cons] at h
      cases h with
      | inl h =>
          subst h
          exact ⟨Nat.le_refl first, by omega⟩
      | inr h =>
          obtain ⟨hle, hlt⟩ := ih hblocks h
          exact ⟨by omega, by omega⟩

/-- A rule line has the number of a line of its text. -/
theorem number_of_mem_ruleLines {line : Nat × List Char} (h : line ∈ ruleLines text) :
    0 < line.1 ∧ line.1 ≤ (Text.lines text).length := by
  obtain ⟨blocks, hflatten, hblocks, -, heq⟩ := exists_blocks text
  have hmem : line ∈ numberBlocks 1 blocks := heq ▸ (List.mem_filter.mp h).1
  obtain ⟨hpos, hlt⟩ := lt_of_mem_numberBlocks hblocks hmem
  rw [hflatten] at hlt
  exact ⟨hpos, by omega⟩

theorem collect_mapError (f : LocatedFault → LocatedFault)
    (outcomes : List (Except LocatedFault Rule)) :
    collect (outcomes.map (Except.mapError f)) = (collect outcomes).mapError (List.map f) := by
  by_cases h : outcomes.filterMap faultOf = []
  · have hmapped : (outcomes.map (Except.mapError f)).filterMap faultOf = [] := by
      rw [filterMap_faultOf_mapError, h, List.map_nil]
    rw [collect_of_no_fault h, collect_of_no_fault hmapped, filterMap_toOption_mapError]
    rfl
  · have hmapped : (outcomes.map (Except.mapError f)).filterMap faultOf ≠ [] := by
      rw [filterMap_faultOf_mapError]
      simpa using h
    rw [collect_of_faults h, collect_of_faults hmapped, filterMap_faultOf_mapError]
    rfl

/-- A fault on one of the first lines stays where it is. -/
theorem outcome_movedBehind_of_le {line : Nat × List Char} {n : Nat} (h : line.1 ≤ n)
    (file : String) (k : Nat) :
    (outcome file line).mapError (movedBehind n k) = outcome file line := by
  obtain ⟨number, content⟩ := line
  cases hline : Rule.ofLine content with
  | ok rule =>
      rw [outcome_of_ok file _ hline]
      rfl
  | error kind =>
      rw [outcome_of_error file _ hline, Except.mapError, movedBehind, if_neg (Nat.not_lt.mpr h)]

/-- A fault behind them is moved. -/
theorem outcome_movedBehind_of_lt {line : Nat × List Char} (h : 0 < line.1) (file : String)
    (n k : Nat) :
    (outcome file (moved n line)).mapError (movedBehind n k) =
      outcome file (moved n (moved k line)) := by
  obtain ⟨number, content⟩ := line
  have hlt : n < number + n := Nat.lt_add_of_pos_left h
  cases hline : Rule.ofLine content with
  | ok rule =>
      rw [moved, moved, moved, outcome_of_ok file _ hline, outcome_of_ok file _ hline]
      rfl
  | error kind =>
      rw [moved, moved, moved, outcome_of_error file _ hline, outcome_of_error file _ hline,
        Except.mapError, movedBehind, if_pos hlt, LocatedFault.moved, Nat.add_right_comm]

theorem parse_insert {text more between : String} (h : EndsCleanly text.toList)
    (hends : between.toList = [] ∨ between.toList.getLast? = some '\n')
    (hidle : ∀ line ∈ Text.lines between.toList, IsIdle line) (file : String) :
    parse (text ++ between ++ more) file =
      (parse (text ++ more) file).mapError (List.map (movedBehind
        (Text.lines text.toList).length (Text.lines between.toList).length)) := by
  have hbetween := endsCleanly_of_idle hends hidle
  rw [parse_eq_collect, parse_eq_collect, ← collect_mapError, String.toList_append,
    String.toList_append, String.toList_append, List.append_assoc, ruleLines_append h,
    ruleLines_append hbetween, ruleLines_of_idle hidle, ruleLines_append h, List.nil_append]
  simp only [List.map_append, List.map_map]
  congr 2
  · refine List.map_congr_left fun line hline => ?_
    exact (outcome_movedBehind_of_le (number_of_mem_ruleLines hline).2 file _).symm
  · refine List.map_congr_left fun line hline => ?_
    exact (outcome_movedBehind_of_lt (number_of_mem_ruleLines hline).1 file _ _).symm

/-- A text behind one that ends cleanly: reading both gives the productions of both, or the
faults of both, those of the second moved down by the lines of the first.  Text between them
whose lines are all idle gives no rule and moves the faults behind it down. -/
theorem parse_append (text more : String) (h : EndsCleanly text.toList) (file : String) :
    parse (text ++ more) file =
        followedBy (ruleLines text.toList ≠ []) (Text.lines text.toList).length
          (parse text file) (parse more file) ∧
      ∀ between : String, (between.toList = [] ∨ between.toList.getLast? = some '\n') →
        (∀ line ∈ Text.lines between.toList, IsIdle line) →
        parse (text ++ between ++ more) file =
          (parse (text ++ more) file).mapError (List.map (movedBehind
            (Text.lines text.toList).length (Text.lines between.toList).length)) := by
  refine ⟨?_, fun between hends hidle => parse_insert h hends hidle file⟩
  have hmoved : (ruleLines more.toList).map (outcome file ∘ moved (Text.lines text.toList).length) =
      ((ruleLines more.toList).map (outcome file)).map
        (Except.mapError (LocatedFault.moved (Text.lines text.toList).length)) := by
    rw [List.map_map]
    exact List.map_congr_left fun line _ => outcome_moved file _ line
  rw [parse_eq_collect, parse_eq_collect, parse_eq_collect, String.toList_append,
    ruleLines_append h, List.map_append, List.map_map, hmoved, collect_append]
  simp

/-- A rule on two lines and a line without an arrow. -/
def upperText : String := "S = \"a\" \\\n| D\nS\n"

/-- A line with an open quote and a rule. -/
def lowerText : String := "\"b\nD = \"c\" |"

/-- A comment that ends in a return, and a blank line. -/
def idleText : String := ";x\\;\r\n \u3000\n"

theorem parse_append_faultyTexts :
    EndsCleanly upperText.toList ∧
      parse (upperText ++ lowerText) "f" = .error
        [⟨⟨"f", 3⟩, .rule .missingArrow⟩, ⟨⟨"f", 4⟩, .rule .unclosedQuote⟩] ∧
      (∀ line ∈ Text.lines idleText.toList, IsIdle line) ∧
      parse (upperText ++ idleText ++ lowerText) "f" = .error
        [⟨⟨"f", 3⟩, .rule .missingArrow⟩, ⟨⟨"f", 6⟩, .rule .unclosedQuote⟩] := by
  have hclean : EndsCleanly upperText.toList := ⟨.inr (by decide +kernel), by decide +kernel⟩
  have hlines : Text.lines idleText.toList = [";x\\;".toList, " \u3000".toList] := by
    decide +kernel
  have hidle : ∀ line ∈ Text.lines idleText.toList, IsIdle line := by
    rw [hlines, List.forall_mem_cons, List.forall_mem_singleton]
    exact ⟨⟨.inr (by decide +kernel), by decide +kernel⟩, .inl (by decide +kernel),
      by decide +kernel⟩
  obtain ⟨happend, hinsert⟩ := parse_append upperText lowerText hclean "f"
  have htexts : parse (upperText ++ lowerText) "f" = .error
      [⟨⟨"f", 3⟩, .rule .missingArrow⟩, ⟨⟨"f", 4⟩, .rule .unclosedQuote⟩] :=
    happend.trans (by decide +kernel)
  refine ⟨hclean, htexts, hidle, (hinsert idleText (.inr (by decide +kernel)) hidle).trans ?_⟩
  rw [htexts]
  decide +kernel

end SentenceGuide.Bnf
