import Mathlib.Data.List.Forall2
import SentenceGuide.Bnf.Document
import SentenceGuide.Proofs.LogicalLines
import SentenceGuide.Proofs.Rendering

/-!
# What a rule text gives

A rule line writes a rule, or it is at fault by the first thing that is wrong with
it.  If all rule lines of a text write rules, reading it gives the grammar of these
rules, in the order written.  If any does not, reading gives one fault for each
that does not, at the line on which it starts (`parse_accepts_or_reports`).

Two causes of faults do not arise.  A rule line is not all white space, so it has a
token, and a body has been cut at all of its bars.
-/

namespace SentenceGuide.Bnf

open Text (isBlank)

/-! ## Rules and the lines that write them -/

/-- A line writes a rule: it is a word, an arrow and a body without an arrow, and the
alternatives are the stretches of the body between its bars. -/
def Rule.WrittenBy (rule : Rule) (line : List Char) : Prop :=
  ∃ body, tokens line = some (.word rule.name :: .arrow :: body) ∧ .arrow ∉ body ∧
    body.splitOn .bar = rule.alternatives.map (·.map Token.ofSymbol) ∧
    rule.alternatives.length = body.count .bar + 1

/-- Whether a line is a word, an arrow and a body without an arrow. -/
def formsRule (line : List Char) : Bool :=
  match tokens line with
  | some (.word _ :: .arrow :: body) => .arrow ∉ body
  | _ => false

/-- What is wrong with a line that writes no rule: a quote is left open, or else it
does not start with a word, or else no arrow follows, or else there is a second
arrow. -/
inductive Faulty (line : List Char) : RuleFault → Prop where
  | unclosedQuote : Odd (line.count '"') → Faulty line .unclosedQuote
  | badRuleName {ts : List Token} : tokens line = some ts →
      (∀ name, ts.head? ≠ some (.word name)) → Faulty line .badRuleName
  | missingArrow {name : String} {ts : List Token} : tokens line = some (.word name :: ts) →
      ts.head? ≠ some .arrow → Faulty line .missingArrow
  | strayArrow {name : String} {body : List Token} :
      tokens line = some (.word name :: .arrow :: body) → .arrow ∈ body →
        Faulty line .strayArrow

variable {line : List Char} {rule : Rule} {kind : RuleFault} {lines : List (Nat × List Char)}

theorem Rule.WrittenBy.ofLine (h : rule.WrittenBy line) : Rule.ofLine line = .ok rule := by
  obtain ⟨body, htokens, -, hbody, -⟩ := h
  rw [Rule.ofLine, htokens]
  exact ofTokens_of_stretches (stretches_eq_splitOn body ▸ hbody)

theorem Faulty.ofLine (h : Faulty line kind) (hline : ∃ c ∈ line, isBlank c = false) :
    Rule.ofLine line = .error kind := by
  rw [Rule.ofLine]
  cases h with
  | unclosedQuote hodd => rw [(tokens_eq_none_iff line).mpr hodd]
  | missingArrow htokens harrow => rw [htokens]; exact ofTokens_of_no_arrow harrow
  | strayArrow htokens harrow => rw [htokens]; exact ofTokens_of_arrow harrow
  | badRuleName htokens hname =>
      rw [htokens]
      refine ofTokens_of_no_word ?_ hname
      -- Only white space has no tokens.
      rintro rfl
      obtain ⟨c, hc, hblank⟩ := hline
      rw [isGap_of_tokens_eq_nil htokens c hc] at hblank
      cases hblank

/-- A line that forms a rule writes one. -/
theorem exists_writtenBy (h : formsRule line = true) : ∃ rule : Rule, rule.WrittenBy line := by
  rw [formsRule] at h
  split at h
  · next name body htokens =>
      have harrow : .arrow ∉ body := by simpa using h
      obtain ⟨alternatives, hstretches⟩ := exists_alternatives harrow
      have hlength := length_stretches body
      rw [hstretches, List.length_map] at hlength
      rw [stretches_eq_splitOn] at hstretches
      exact ⟨⟨name, alternatives⟩, body, htokens, harrow, hstretches, hlength⟩
  · cases h

/-- A line that does not form a rule is at fault. -/
theorem exists_faulty (h : formsRule line = false) : ∃ kind, Faulty line kind := by
  cases htokens : tokens line with
  | none => exact ⟨_, .unclosedQuote ((tokens_eq_none_iff line).mp htokens)⟩
  | some ts =>
      by_cases hword : ∃ name, ts.head? = some (.word name)
      · obtain ⟨name, hword⟩ := hword
        obtain ⟨ts, rfl⟩ := List.head?_eq_some_iff.mp hword
        by_cases harrow : ts.head? = some .arrow
        · obtain ⟨body, rfl⟩ := List.head?_eq_some_iff.mp harrow
          refine ⟨_, .strayArrow htokens ?_⟩
          simpa [formsRule, htokens] using h
        · exact ⟨_, .missingArrow htokens harrow⟩
      · exact ⟨_, .badRuleName htokens (not_exists.mp hword)⟩

/-! ## The rules of a text -/

/-- What a rule line of a file gives. -/
def outcome (file : String) (line : Nat × List Char) : Except LocatedFault Rule :=
  readLine file (readable line)

theorem parse_eq_collect (text file : String) :
    parse text file = collect ((ruleLines text.toList).map (outcome file)) := by
  rw [parse, readLines, filter_joinLines, List.map_map]
  rfl

theorem outcome_of_ok (file : String) (number : Nat) (h : Rule.ofLine line = .ok rule) :
    outcome file (number, line) = .ok rule := by
  rw [outcome, readable, readLine]
  simp only [h]

theorem outcome_of_error (file : String) (number : Nat) (h : Rule.ofLine line = .error kind) :
    outcome file (number, line) = .error ⟨⟨file, number⟩, .rule kind⟩ := by
  rw [outcome, readable, readLine]
  simp only [h]

theorem collect_map_ok (rules : List Rule) :
    collect (rules.map .ok) = .ok (grammarOfRules rules) := by
  let outcomes : List (Except LocatedFault Rule) := rules.map .ok
  have hfaults : outcomes.filterMap faultOf = [] := by
    rw [List.filterMap_map, List.filterMap_eq_nil_iff]
    exact fun _ _ => rfl
  have hrules : outcomes.filterMap Except.toOption = rules := by
    rw [List.filterMap_map]
    exact List.filterMap_some
  rw [collect_of_no_fault hfaults, hrules]

/-- Lines that form rules give the rules that they write. -/
theorem exists_rules (file : String) (h : ∀ line ∈ lines, formsRule line.2 = true) :
    ∃ rules : List Rule, List.Forall₂ (fun line rule => rule.WrittenBy line.2) lines rules ∧
      lines.map (outcome file) = rules.map .ok := by
  induction lines with
  | nil => exact ⟨[], .nil, rfl⟩
  | cons line lines ih =>
      obtain ⟨hline, hlines⟩ := List.forall_mem_cons.mp h
      obtain ⟨rule, hrule⟩ := exists_writtenBy hline
      obtain ⟨rules, hrules, heq⟩ := ih hlines
      refine ⟨rule :: rules, .cons hrule hrules, ?_⟩
      rw [List.map_cons, List.map_cons, heq, outcome_of_ok file line.1 hrule.ofLine]

/-- Where and why a line is at fault. -/
def ReportedAs (file : String) (line : Nat × List Char) (fault : LocatedFault) : Prop :=
  fault.location = ⟨file, line.1⟩ ∧ ∃ kind, Faulty line.2 kind ∧ fault.fault = .rule kind

/-- The faults of some lines are those of the lines that form no rule, one for each. -/
theorem forall₂_faults (file : String) (h : ∀ line ∈ lines, ∃ c ∈ line.2, isBlank c = false) :
    List.Forall₂ (ReportedAs file) (lines.filter fun line => !formsRule line.2)
      ((lines.map (outcome file)).filterMap faultOf) := by
  induction lines with
  | nil => exact .nil
  | cons line lines ih =>
      obtain ⟨hline, hlines⟩ := List.forall_mem_cons.mp h
      cases hforms : formsRule line.2 with
      | true =>
          obtain ⟨rule, hrule⟩ := exists_writtenBy hforms
          rw [List.filter_cons_of_neg (by simp [hforms]), List.map_cons,
            outcome_of_ok file line.1 hrule.ofLine]
          exact ih hlines
      | false =>
          obtain ⟨kind, hkind⟩ := exists_faulty hforms
          rw [List.filter_cons_of_pos (by simp [hforms]), List.map_cons,
            outcome_of_error file line.1 (hkind.ofLine hline)]
          exact .cons ⟨rfl, kind, hkind, rfl⟩ (ih hlines)

theorem map_line_eq_of_forall₂ {file : String} {faults : List LocatedFault}
    (h : List.Forall₂ (ReportedAs file) lines faults) :
    faults.map (·.location.line) = lines.map (·.1) := by
  induction h with
  | nil => rfl
  | cons hreported _ ih => rw [List.map_cons, List.map_cons, ih, hreported.1]

/-- If every rule line of a text is a word, an arrow and a body without an arrow,
the text gives the grammar of the rules that these lines write.  If not, it gives
one fault for each line that is not, in the order of their numbers.  The logical
lines are those of the blocks into which the lines of the text are cut, and have
the numbers of the first lines of these. -/
theorem parse_accepts_or_reports (text file : String) :
    ((∀ line ∈ ruleLines text.toList, formsRule line.2 = true) →
      ∃ rules : List Rule,
        List.Forall₂ (fun line rule => rule.WrittenBy line.2) (ruleLines text.toList) rules ∧
        parse text file = .ok (.ofProductions ((rules.head?.map (·.name)).getD "")
          (rules.flatMap fun rule => rule.alternatives.map fun rhs => ⟨rule.name, rhs⟩))) ∧
    (¬ (∀ line ∈ ruleLines text.toList, formsRule line.2 = true) →
      ∃ faults, parse text file = .error faults ∧
        List.Forall₂ (fun line fault => fault.location = ⟨file, line.1⟩ ∧
            ∃ kind, Faulty line.2 kind ∧ fault.fault = .rule kind)
          ((ruleLines text.toList).filter fun line => !formsRule line.2) faults ∧
        (faults.map (·.location.line)).Pairwise (· < ·)) ∧
    ∃ blocks : List Block, blocks.flatten = Text.lines text.toList ∧ (∀ b ∈ blocks, b ≠ []) ∧
      joinLines none (numberFrom 1 ((Text.lines text.toList).map .ok)) =
        (logicalLines text.toList).map readable ∧
      logicalLines text.toList = numberBlocks 1 blocks := by
  refine ⟨?_, ?_, exists_blocks text.toList⟩
  · intro h
    obtain ⟨rules, hrules, heq⟩ := exists_rules file h
    refine ⟨rules, hrules, ?_⟩
    rw [parse_eq_collect, heq, collect_map_ok]
    rfl
  · intro h
    have hfaults := forall₂_faults file fun line (hline : line ∈ ruleLines text.toList) =>
      exists_not_blank_of_mem_ruleLines hline
    refine ⟨_, ?_, hfaults, ?_⟩
    · rw [parse_eq_collect]
      refine collect_of_faults fun hnil => h ?_
      rw [hnil, List.forall₂_nil_right_iff, List.filter_eq_nil_iff] at hfaults
      intro line hline
      simpa using hfaults line hline
    · rw [map_line_eq_of_forall₂ hfaults]
      exact (pairwise_ruleLines text.toList).sublist (List.filter_sublist.map _)

/-- A comment, a rule on two lines and a rule with an empty alternative. -/
def soundText : String := "; S\nS -> \"a b\" |\\\n D\n\n D=|"

/-- Lines at fault in each of the four ways, one of them on two lines, and a rule. -/
def faultyText : String := "S \"a\"\n\"b\" = S\\\n |\nS=\nS = -> D\n \"S"

theorem parse_sound_and_faulty :
    (∃ rules : List Rule,
      List.Forall₂ (fun line rule => rule.WrittenBy line.2) (ruleLines soundText.toList) rules ∧
      parse soundText "f" = .ok (.ofProductions ((rules.head?.map (·.name)).getD "")
        (rules.flatMap fun rule => rule.alternatives.map fun rhs => ⟨rule.name, rhs⟩))) ∧
    ∃ faults, parse faultyText "f" = .error faults ∧
      List.Forall₂ (fun line fault => fault.location = ⟨"f", line.1⟩ ∧
          ∃ kind, Faulty line.2 kind ∧ fault.fault = .rule kind)
        ((ruleLines faultyText.toList).filter fun line => !formsRule line.2) faults ∧
      (faults.map (·.location.line)).Pairwise (· < ·) := by
  obtain ⟨hsound, -, -⟩ := parse_accepts_or_reports soundText "f"
  obtain ⟨-, hfaulty, -⟩ := parse_accepts_or_reports faultyText "f"
  exact ⟨hsound (by decide +kernel), hfaulty (by decide +kernel)⟩

end SentenceGuide.Bnf
