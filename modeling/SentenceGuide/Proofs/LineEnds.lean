import Mathlib.Data.List.DropRight
import SentenceGuide.Proofs.RuleTexts

/-!
# The ends of lines

White space at the end of a line plays no part.  Whether a line goes on in the next one is
seen behind it, and where the line is cut it is cut off too.  So it only stays at the end of
a logical line.  There it changes neither whether the line is a rule, nor its tokens
(`readLines_trimmed`).

A return in front of a newline goes with the newline, and any other one is white space.
So a text is read the same if all of its lines end in a return and a newline
(`parse_withReturns`).  Its lines need not be the same: a line that ended so before keeps
one return.
-/

namespace SentenceGuide.Bnf

open Text (isBlank trimStart trimEnd)

variable {line text gap : List Char} {ts : List Token} {behindWord : Bool}

/-! ## White space at the end of a line -/

/-- A line is what is left of it if its end is trimmed, with white space behind. -/
theorem exists_gap (line : List Char) : ∃ gap, IsGap gap ∧ line = trimEnd line ++ gap :=
  ⟨line.rtakeWhile isBlank, fun _ => List.mem_rtakeWhile_imp,
    List.rdropWhile_append_rtakeWhile.symm⟩

theorem dropWhile_reverse_append (hgap : IsGap gap) (line : List Char) :
    (line ++ gap).reverse.dropWhile isBlank = line.reverse.dropWhile isBlank := by
  rw [List.reverse_append, List.dropWhile_append_of_pos]
  exact fun c hc => hgap c (List.mem_reverse.mp hc)

theorem trimEnd_append_gap (hgap : IsGap gap) (line : List Char) :
    trimEnd (line ++ gap) = trimEnd line := by
  rw [trimEnd, dropWhile_reverse_append hgap, trimEnd]

theorem cutBackslash_append_gap (hgap : IsGap gap) (line : List Char) :
    cutBackslash (line ++ gap) = cutBackslash line := by
  rw [cutBackslash, dropWhile_reverse_append hgap, cutBackslash]

/-- White space behind a line leaves it a rendering of the same tokens. -/
theorem Renders.append_gap (h : Renders behindWord ts line) (hgap : IsGap gap) :
    Renders behindWord ts (line ++ gap) := by
  induction h with
  | done hfirst => exact .done (List.forall_mem_append.mpr ⟨hfirst, hgap⟩)
  | token hfirst hne hspelled _ ih =>
      rw [List.append_assoc, List.append_assoc]
      exact .token hfirst hne hspelled ih

theorem tokens_append_gap (hgap : IsGap gap) (line : List Char) :
    tokens (line ++ gap) = tokens line := by
  cases hline : tokens line with
  | some ts =>
      obtain ⟨hvalid, hrenders⟩ := rendersTokens line ts hline
      exact ((hrenders false (by simp)).append_gap hgap).tokens_eq hvalid
  | none =>
      have hcount : gap.count '"' = 0 :=
        List.count_eq_zero.mpr fun hmem => absurd (hgap '"' hmem) (by decide)
      rw [tokens_eq_none_iff] at hline ⊢
      rwa [List.count_append, hcount, Nat.add_zero]

theorem isRuleLine_append_gap (hgap : IsGap gap) (number : Nat) (line : List Char) :
    isRuleLine (number, .ok (line ++ gap)) = isRuleLine (number, .ok line) := by
  have hnil : gap.dropWhile isBlank = [] := List.dropWhile_eq_nil_iff.mpr hgap
  rw [isRuleLine, isRuleLine, trimStart, trimStart, List.dropWhile_append, hnil]
  cases line.dropWhile isBlank <;> rfl

/-! ## Lines without the white space at their ends -/

/-- A line without the white space at its end, if it could be read. -/
def trimmed (line : Except ReadFault (List Char)) : Except ReadFault (List Char) :=
  line.map trimEnd

@[simp] theorem trimmed_ok (line : List Char) : trimmed (.ok line) = .ok (trimEnd line) := rfl

/-- A numbered line without the white space at its end. -/
def trimmedAt (line : NumberedLine) : NumberedLine := (line.1, trimmed line.2)

theorem isRuleLine_trimmedAt (line : NumberedLine) :
    isRuleLine (trimmedAt line) = isRuleLine line := by
  obtain ⟨number, content⟩ := line
  cases content with
  | error fault => rfl
  | ok text =>
      obtain ⟨gap, hgap, htext⟩ := exists_gap text
      conv_rhs => rw [htext, isRuleLine_append_gap hgap]
      rfl

theorem readLine_trimmedAt (file : String) (line : NumberedLine) :
    readLine file (trimmedAt line) = readLine file line := by
  obtain ⟨number, content⟩ := line
  cases content with
  | error fault => rfl
  | ok text =>
      obtain ⟨gap, hgap, htext⟩ := exists_gap text
      conv_rhs => rw [htext, readLine, Rule.ofLine, tokens_append_gap hgap, ← Rule.ofLine]
      rfl

/-- A trimmed line goes on an open line like the line itself, but for white space at its end. -/
theorem exists_extend_trimEnd (opened : OpenLine) (number : Nat) (line : List Char) :
    ∃ first text gap, IsGap gap ∧ opened.extend number (trimEnd line) = (first, text) ∧
      opened.extend number line = (first, text ++ gap) := by
  obtain ⟨gap, hgap, hline⟩ := exists_gap line
  cases opened with
  | none => exact ⟨number, trimEnd line, gap, hgap, rfl, congrArg (Prod.mk number) hline⟩
  | some first =>
      refine ⟨first.1, first.2 ++ ' ' :: trimEnd line, gap, hgap, rfl, ?_⟩
      rw [List.append_assoc, List.cons_append, ← hline]
      rfl

/-- Trimmed lines have the same logical lines, but for white space at their ends. -/
theorem joinLines_trimmed (lines : List (Except ReadFault (List Char))) :
    ∀ (opened : OpenLine) (number : Nat),
      (joinLines opened (numberFrom number (lines.map trimmed))).map trimmedAt =
        (joinLines opened (numberFrom number lines)).map trimmedAt := by
  induction lines with
  | nil => exact fun opened number => rfl
  | cons line lines ih =>
      intro opened number
      rw [List.map_cons, numberFrom, numberFrom]
      cases line with
      | error fault =>
          exact congrArg (trimmedAt (number, .error fault) :: ·) (ih opened (number + 1))
      | ok line =>
          obtain ⟨first, text, gap, hgap, htrimmed, hline⟩ :=
            exists_extend_trimEnd opened number line
          have hcut := cutBackslash_append_gap hgap text
          have hend : trimmedAt (first, .ok (text ++ gap)) = trimmedAt (first, .ok text) := by
            rw [trimmedAt, trimmedAt, trimmed_ok, trimmed_ok, trimEnd_append_gap hgap]
          rw [trimmed_ok, joinLines, joinLines, htrimmed, hline]
          simp only [hcut]
          cases cutBackslash text with
          | some kept => exact ih (some (first, kept)) (number + 1)
          | none => simp only [List.map_cons, hend, ih none (number + 1)]

theorem filter_map_readLine_trimmedAt (file : String) (lines : List NumberedLine) :
    ((lines.map trimmedAt).filter isRuleLine).map (readLine file) =
      (lines.filter isRuleLine).map (readLine file) := by
  have hrule : isRuleLine ∘ trimmedAt = isRuleLine := funext isRuleLine_trimmedAt
  have hread : readLine file ∘ trimmedAt = readLine file := funext (readLine_trimmedAt file)
  rw [List.filter_map, hrule, List.map_map, hread]

/-- Lines are read as if there were no white space at their ends. -/
theorem readLines_trimmed (file : String) (lines : List (Except ReadFault (List Char))) :
    readLines file (lines.map trimmed) = readLines file lines := by
  rw [readLines, readLines, ← filter_map_readLine_trimmedAt, joinLines_trimmed,
    filter_map_readLine_trimmedAt]

/-! ## Returns in front of newlines -/

/-- A return in front of every newline of some characters. -/
def returnsBefore (cs : List Char) : List Char :=
  cs.flatMap fun c => if c = '\n' then ['\r', '\n'] else [c]

/-- A text with a return put in front of each of its newlines. -/
def withReturns (text : String) : String := String.ofList (returnsBefore text.toList)

/-- The return that goes with a newline is white space at the end of the line. -/
theorem trimEnd_dropReturn (start : List Char) :
    trimEnd (Text.dropReturn '\r' start).reverse = trimEnd start.reverse := by
  cases start with
  | nil => rfl
  | cons c start =>
      rw [Text.dropReturn]
      split
      · next hc => rw [hc, List.reverse_cons, Text.trimEnd_append_blank (by decide)]
      · rfl

theorem linesFrom_returnsBefore (cs : List Char) :
    ∀ start, (Text.linesFrom '\n' '\r' start (returnsBefore cs)).map trimEnd =
      (Text.linesFrom '\n' '\r' start cs).map trimEnd := by
  induction cs with
  | nil => exact fun start => rfl
  | cons c cs ih =>
      intro start
      by_cases hc : c = '\n'
      · subst hc
        have hreturn : returnsBefore ('\n' :: cs) = '\r' :: '\n' :: returnsBefore cs := rfl
        have hdrop : Text.dropReturn '\r' ('\r' :: start) = start := rfl
        rw [hreturn, Text.linesFrom_cons _ _ (by decide), Text.linesFrom_newline,
          Text.linesFrom_newline, List.map_cons, List.map_cons, ih, hdrop, trimEnd_dropReturn]
      · have hsame : returnsBefore (c :: cs) = c :: returnsBefore cs := by
          rw [returnsBefore, List.flatMap_cons, if_neg hc]
          rfl
        rw [hsame, Text.linesFrom_cons _ _ hc, Text.linesFrom_cons _ _ hc, ih]

/-- A text gives the same grammar, or the same faults at the same lines, if a return is put
in front of each of its newlines. -/
theorem parse_withReturns (text file : String) :
    parse (withReturns text) file = parse text file := by
  have hlines : (Text.lines (returnsBefore text.toList)).map trimEnd =
      (Text.lines text.toList).map trimEnd := linesFrom_returnsBefore text.toList []
  have htrimmed (lines : List (List Char)) :
      (lines.map .ok).map trimmed = (lines.map trimEnd).map .ok := by
    rw [List.map_map, List.map_map]
    rfl
  rw [parse, parse, withReturns, String.toList_ofList, ← readLines_trimmed, htrimmed, hlines,
    ← htrimmed, readLines_trimmed]

example : Text.lines ['a', '\r', '\n'] = [['a']] ∧
    Text.lines (returnsBefore ['a', '\r', '\n']) = [['a', '\r']] := by decide

end SentenceGuide.Bnf
