import SentenceGuide.Proofs.RuleFiles
import SentenceGuide.Proofs.RuleTexts

/-!
# Faults that no file gives

Of the faults that a rule can have, two would be mistakes of the reader and not of the
file.  A bar could be left in an alternative, and a rule could have no token.

No tokens give the first, since a body is cut at all of its bars.  The second arises just
of no token at all (`ofTokens_eq_error`).  A line that is looked at has a token, for the
two notions of a blank line agree: what is left of it without the white space around it
is what its tokens are cut from (`ofLine_eq_error`).  That holds of every logical line,
however it has been joined and whatever lines between could not be read, so neither
fault is ever reported (`internal_faults_unreachable`).
-/

namespace SentenceGuide.Bnf

variable {file : String} {fault : LocatedFault} {kind : RuleFault}

/-- A fault that the author of a file has to answer for. -/
def RuleFault.isOfFile : RuleFault → Bool
  | missingArrow | strayArrow | badRuleName | unclosedQuote => true
  | unsplitRule | blankRule => false

/-- A line that is looked at has tokens, or a quote in it is left open. -/
theorem tokens_ne_nil {line : Nat × List Char} (h : isRuleLine (readable line) = true) :
    tokens line.2 ≠ some [] := by
  intro htokens
  obtain ⟨c, hc, hblank⟩ := exists_not_blank_of_isRuleLine h
  rw [isGap_of_tokens_eq_nil htokens c hc] at hblank
  cases hblank

theorem ofLine_eq_error {line : Nat × List Char} (hline : isRuleLine (readable line) = true)
    (h : Rule.ofLine line.2 = .error kind) : kind.isOfFile = true := by
  rw [Rule.ofLine] at h
  cases htokens : tokens line.2 with
  | none =>
      rw [htokens] at h
      cases h
      rfl
  | some ts =>
      rw [htokens] at h
      rcases ofTokens_eq_error h with ⟨rfl, -⟩ | rfl | rfl | rfl
      · exact absurd htokens (tokens_ne_nil hline)
      · rfl
      · rfl
      · rfl

theorem mem_lineFaults_iff {lines : List NumberedLine} :
    fault ∈ lineFaults file lines ↔
      ∃ line ∈ lines, isRuleLine line = true ∧ readLine file line = .error fault := by
  simp only [lineFaults, List.mem_filterMap, List.mem_map, List.mem_filter]
  constructor
  · rintro ⟨outcome, ⟨line, ⟨hline, hrule⟩, rfl⟩, hfault⟩
    refine ⟨line, hline, hrule, ?_⟩
    cases hread : readLine file line with
    | ok rule =>
        rw [hread] at hfault
        cases hfault
    | error fault' =>
        rw [hread] at hfault
        cases hfault
        rfl
  · rintro ⟨line, hline, hrule, hread⟩
    exact ⟨.error fault, ⟨line, ⟨hline, hrule⟩, hread⟩, rfl⟩

/-- A fault of a rule on a logical line is one of the file. -/
theorem isOfFile_of_readLine {line : NumberedLine} (hline : isRuleLine line = true)
    (h : readLine file line = .error fault) (hkind : fault.fault = .rule kind) :
    kind.isOfFile = true := by
  obtain ⟨number, content⟩ := line
  cases content with
  | error readFault =>
      cases h
      cases hkind
  | ok text =>
      rw [readLine] at h
      cases hrule : Rule.ofLine text with
      | ok rule =>
          rw [hrule] at h
          cases h
      | error kind' =>
          rw [hrule] at h
          cases h
          cases hkind
          have hreadable : isRuleLine (readable (number, text)) = true := hline
          exact ofLine_eq_error hreadable hrule

theorem isOfFile_of_readLines {lines : List (Except ReadFault (List Char))}
    {faults : List LocatedFault} (h : readLines file lines = .error faults)
    (hfault : fault ∈ faults) (hkind : fault.fault = .rule kind) : kind.isOfFile = true := by
  have hfaults : faults = lineFaults file (joinLines none (numberFrom 1 lines)) := by
    rw [← faultsOf_readNumbered]
    exact (congrArg faultsOf h).symm
  rw [hfaults] at hfault
  obtain ⟨line, -, hrule, hread⟩ := mem_lineFaults_iff.mp hfault
  exact isOfFile_of_readLine hrule hread hkind

/-- No tokens leave a bar between alternatives, and a rule is blank just if there are no
tokens.  Neither fault is reported of any file or of any text at hand. -/
theorem internal_faults_unreachable :
    (∀ ts, Rule.ofTokens ts ≠ .error .unsplitRule ∧
      (Rule.ofTokens ts = .error .blankRule ↔ ts = [])) ∧
    (∀ bytes file faults, load (.bytes bytes) file = some (.error faults) → ∀ fault ∈ faults,
      fault.fault ≠ .rule .unsplitRule ∧ fault.fault ≠ .rule .blankRule) ∧
    ∀ text file faults, parse text file = .error faults → ∀ fault ∈ faults,
      fault.fault ≠ .rule .unsplitRule ∧ fault.fault ≠ .rule .blankRule := by
  refine ⟨?_, ?_, ?_⟩
  · intro ts
    constructor
    · intro h
      rcases ofTokens_eq_error h with ⟨-, hkind⟩ | hkind | hkind | hkind <;> cases hkind
    · constructor
      · intro h
        rcases ofTokens_eq_error h with ⟨hts, -⟩ | hkind | hkind | hkind
        · exact hts
        all_goals cases hkind
      · rintro rfl
        rfl
  · intro bytes file faults hload fault hfault
    have h : parseBytes bytes file = .error faults := Option.some.inj hload
    constructor
    · exact fun hkind => Bool.false_ne_true (isOfFile_of_readLines h hfault hkind)
    · exact fun hkind => Bool.false_ne_true (isOfFile_of_readLines h hfault hkind)
  · intro text file faults h fault hfault
    constructor
    · exact fun hkind => Bool.false_ne_true (isOfFile_of_readLines h hfault hkind)
    · exact fun hkind => Bool.false_ne_true (isOfFile_of_readLines h hfault hkind)

/-- Two blank lines that are joined, with blanks beyond ASCII, a rule that starts with a bar,
and a line with an open quote, behind which a line spells no text. -/
def oddBytes : List UInt8 :=
  Text.Utf8.encode "\u00a0\\\n\u3000\n|\\ \u2003\n= \"a\"\nS = \"\\\n".toList ++ [0xFF, 10]

theorem internal_faults_unreachable_oddBytes :
    (∃ faults, load (.bytes oddBytes) "f" = some (.error faults) ∧
      faults = [⟨⟨"f", 3⟩, .rule .badRuleName⟩, ⟨⟨"f", 0⟩, .unreadable .notUtf8⟩,
        ⟨⟨"f", 5⟩, .rule .unclosedQuote⟩] ∧
      ∀ fault ∈ faults, fault.fault ≠ .rule .unsplitRule ∧ fault.fault ≠ .rule .blankRule) ∧
    ∃ faults, parse "|" "f" = .error faults ∧
      ∀ fault ∈ faults, fault.fault ≠ .rule .unsplitRule ∧ fault.fault ≠ .rule .blankRule := by
  obtain ⟨-, hload, hparse⟩ := internal_faults_unreachable
  have hbytes : load (.bytes oddBytes) "f" = some (.error [⟨⟨"f", 3⟩, .rule .badRuleName⟩,
      ⟨⟨"f", 0⟩, .unreadable .notUtf8⟩, ⟨⟨"f", 5⟩, .rule .unclosedQuote⟩]) := by decide +kernel
  have htext : parse "|" "f" = .error [⟨⟨"f", 1⟩, .rule .badRuleName⟩] := by decide +kernel
  exact ⟨⟨_, hbytes, rfl, hload _ _ _ hbytes⟩, _, htext, hparse _ _ _ htext⟩

end SentenceGuide.Bnf
