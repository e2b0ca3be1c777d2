import SentenceGuide.Proofs.Lines
import SentenceGuide.Proofs.RuleTexts

/-!
# The terminals of a rule text

A terminal of a rule text stands between two quotes on one logical line.  So it
holds no quote, and it holds no newline, since the lines of a file hold none and are
joined with spaces (`plain_of_mem_terminals`).  All other characters can be in it.
-/

namespace SentenceGuide.Bnf

variable {text line kept : List Char} {ts : List Token} {rule : Rule} {t : String} {g : Grammar}
  {behindWord : Bool}

/-! ## Logical lines -/

/-- A numbered line holds no newline, if it could be read. -/
def Unbroken : NumberedLine → Prop
  | (_, .error _) => True
  | (_, .ok text) => '\n' ∉ text

theorem prefix_of_cutBackslash (h : cutBackslash text = some kept) : kept <+: text := by
  rw [cutBackslash] at h
  split at h
  · next rest hrest =>
      cases h
      rw [← List.reverse_suffix, List.reverse_reverse]
      exact ((List.suffix_cons _ rest).trans (hrest ▸ List.dropWhile_suffix _))
  · cases h

theorem unbroken_numberFrom {lines : List (Except ReadFault (List Char))}
    (h : ∀ text, .ok text ∈ lines → '\n' ∉ text) (first : Nat) :
    ∀ line ∈ numberFrom first lines, Unbroken line := by
  induction lines generalizing first with
  | nil => exact fun _ hline => absurd hline List.not_mem_nil
  | cons line lines ih =>
      rw [numberFrom, List.forall_mem_cons]
      refine ⟨?_, ih (fun text htext => h text (List.mem_cons_of_mem line htext)) (first + 1)⟩
      cases line with
      | error fault => trivial
      | ok text => exact h text List.mem_cons_self

/-- Joining lines puts spaces between them and nothing else. -/
theorem unbroken_joinLines {lines : List NumberedLine} {opened : OpenLine}
    (hopened : ∀ first text, opened = some (first, text) → '\n' ∉ text)
    (h : ∀ line ∈ lines, Unbroken line) : ∀ line ∈ joinLines opened lines, Unbroken line := by
  induction lines generalizing opened with
  | nil =>
      cases opened with
      | none => exact fun _ hline => absurd hline List.not_mem_nil
      | some line =>
          intro line hline
          rw [List.mem_singleton.mp hline]
          exact hopened _ _ rfl
  | cons line lines ih =>
      obtain ⟨hline, hlines⟩ := List.forall_mem_cons.mp h
      obtain ⟨number, content⟩ := line
      cases content with
      | error fault =>
          rw [joinLines, List.forall_mem_cons]
          exact ⟨trivial, ih hopened hlines⟩
      | ok text =>
          have hextended : '\n' ∉ (opened.extend number text).2 := by
            cases opened with
            | none => exact hline
            | some first =>
                have hfirst := hopened first.1 first.2 rfl
                have htext : '\n' ∉ text := hline
                simp [OpenLine.extend, hfirst, htext]
          rw [joinLines]
          generalize opened.extend number text = joined at hextended
          cases hcut : cutBackslash joined.2 with
          | some kept =>
              simp only [hcut]
              refine ih ?_ hlines
              intro first text heq
              cases heq
              exact fun hmem => hextended ((prefix_of_cutBackslash hcut).subset hmem)
          | none =>
              simp only [hcut, List.forall_mem_cons]
              exact ⟨hextended, ih (by simp) hlines⟩

/-! ## Quoted texts -/

/-- A quoted text is part of the line. -/
theorem Renders.subset (h : Renders behindWord ts line) (ht : .quoted t ∈ ts) :
    t.toList ⊆ line := by
  induction h with
  | done _ => exact absurd ht List.not_mem_nil
  | token _ _ hspelled _ ih =>
      rcases List.mem_cons.mp ht with rfl | ht
      · cases hspelled
        intro c hc
        simp [hc]
      · exact List.Subset.trans (ih ht) (by simp)

theorem stretches_of_ofTokens (h : Rule.ofTokens ts = .ok rule) :
    ∃ body, ts = .word rule.name :: .arrow :: body ∧
      stretches body = rule.alternatives.map (·.map Token.ofSymbol) := by
  match ts, h with
  | .word name :: .arrow :: body, h =>
      by_cases harrow : .arrow ∈ body
      · rw [ofTokens_of_arrow harrow] at h
        cases h
      · obtain ⟨alternatives, hstretches⟩ := exists_alternatives harrow
        rw [ofTokens_of_stretches hstretches] at h
        cases h
        exact ⟨body, rfl, hstretches⟩

/-- A terminal of a rule is quoted on its line. -/
theorem quoted_of_ofLine (h : Rule.ofLine line = .ok rule) {alternative : List Symbol}
    (halternative : alternative ∈ rule.alternatives) (ht : .terminal t ∈ alternative) :
    t.toList ⊆ line ∧ '"' ∉ t.toList := by
  rw [Rule.ofLine] at h
  cases hts : tokens line with
  | none =>
      rw [hts] at h
      cases h
  | some ts =>
      rw [hts] at h
      obtain ⟨body, rfl, hstretches⟩ := stretches_of_ofTokens h
      have hmem : Token.quoted t ∈ body := by
        refine (mem_stretch_iff.mp ⟨alternative.map Token.ofSymbol, ?_, ?_⟩).1
        · rw [hstretches]
          exact List.mem_map_of_mem halternative
        · exact List.mem_map_of_mem (f := Token.ofSymbol) ht
      obtain ⟨hvalid, hrenders⟩ := rendersTokens line _ hts
      have hquoted := List.mem_cons_of_mem (.word rule.name) (List.mem_cons_of_mem .arrow hmem)
      exact ⟨(hrenders false (by simp)).subset hquoted, hvalid _ hquoted⟩

/-! ## Files -/

theorem newline_not_mem_of_decodeLine {bytes : List UInt8} (hbytes : 10 ∉ bytes)
    (h : decodeLine bytes = .ok text) : '\n' ∉ text := by
  rw [decodeLine] at h
  split at h
  · next cs hdecode =>
      cases h
      intro hmem
      rw [Text.Utf8.decode_eq_some_iff.mp hdecode, Text.Utf8.encode] at hbytes
      exact hbytes (List.mem_flatMap.mpr ⟨'\n', hmem, by decide⟩)
  · cases h

theorem exists_rule_of_readLines {file : String} {lines : List (Except ReadFault (List Char))}
    (h : readLines file lines = .ok g) (ht : t ∈ g.terminals) :
    ∃ number text rule, (number, .ok text) ∈ joinLines none (numberFrom 1 lines) ∧
      Rule.ofLine text = .ok rule ∧
        ∃ alternative ∈ rule.alternatives, .terminal t ∈ alternative := by
  rw [readLines, collect] at h
  split at h
  · cases h
    obtain ⟨p, hp, hpt⟩ := Grammar.mem_terminals.mp ht
    obtain ⟨rule, hrule, hp⟩ := List.mem_flatMap.mp hp
    obtain ⟨alternative, halternative, rfl⟩ := List.mem_map.mp hp
    obtain ⟨outcome, houtcome, hok⟩ := List.mem_filterMap.mp hrule
    obtain ⟨line, hline, rfl⟩ := List.mem_map.mp houtcome
    obtain ⟨number, content⟩ := line
    cases content with
    | error fault => cases hok
    | ok text =>
        rw [readLine] at hok
        cases hof : Rule.ofLine text with
        | error kind =>
            rw [hof] at hok
            cases hok
        | ok read =>
            rw [hof] at hok
            cases hok
            exact ⟨number, text, rule, (List.mem_filter.mp hline).1, hof, alternative,
              halternative, hpt⟩
  · cases h

/-- No terminal of a grammar that is read from a file of rules holds a newline or a
quote. -/
theorem plain_of_mem_terminals {source : Source} {file : String}
    (h : load source file = some (.ok g)) (ht : t ∈ g.terminals) :
    '\n' ∉ t.toList ∧ '"' ∉ t.toList := by
  cases source with
  | missing fault => cases h
  | unreadable fault => cases h
  | bytes content =>
      have h : parseBytes content file = .ok g := Option.some.inj h
      obtain ⟨number, text, rule, hline, hrule, alternative, halternative, hterminal⟩ :=
        exists_rule_of_readLines h ht
      obtain ⟨hsubset, hquote⟩ := quoted_of_ofLine hrule halternative hterminal
      have hlines : ∀ text, .ok text ∈ (Text.byteLines content).map decodeLine → '\n' ∉ text := by
        intro text htext
        obtain ⟨bytes, hbytes, hdecode⟩ := List.mem_map.mp htext
        exact newline_not_mem_of_decodeLine
          (Text.newline_not_mem_of_mem_linesFrom List.not_mem_nil hbytes) hdecode
      have hnone : ∀ first text, (none : OpenLine) = some (first, text) → '\n' ∉ text := by simp
      have hunbroken : '\n' ∉ text :=
        unbroken_joinLines hnone (unbroken_numberFrom hlines 1) _ hline
      exact ⟨fun hmem => hunbroken (hsubset hmem), hquote⟩

end SentenceGuide.Bnf
