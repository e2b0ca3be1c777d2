import SentenceGuide.Proofs.Lines
import SentenceGuide.Proofs.RuleTexts

/-!
# Rules that are written are read back

A rule is written on one line, as its name, an equals sign, and its alternatives
with bars between them.  Single spaces separate all of these.  A rule text has such
a line for each of its rules.

Not every production can be written, since there is no way to spell a quote in a
terminal or white space in a name, and a line cannot end in a backslash or begin
with a semicolon.  All other productions are read back from the rules that they make,
however they are put together to rules and however these are spaced
(`parse_writtenText`).  A terminal may hold arrows, bars, semicolons and backslashes,
and blanks other than a newline.

A line is a string of tokens, and what is to be known of it is known of each of its
tokens: it is valid, holds no newline, and does not end in a blank or a backslash
(`Token.Writable`).
-/

namespace SentenceGuide

open Text (isBlank trimStart)

/-! ## What can be written -/

/-- A name that is a word and does not let the next line be joined. -/
def WritableName (name : String) : Prop :=
  Bnf.IsName name.toList ∧ name.toList.getLast? ≠ some '\\'

/-- A symbol that can be written.  A terminal cannot hold a quote or a newline. -/
def Symbol.Writable : Symbol → Prop
  | .nonterminal name => WritableName name
  | .terminal text => '"' ∉ text.toList ∧ '\n' ∉ text.toList

/-- A production that can be written.  A line that begins with its name is no
comment. -/
structure Production.Writable (p : Production) : Prop where
  lhs : WritableName p.lhs
  not_comment : p.lhs.toList.head? ≠ some ';'
  rhs : ∀ s ∈ p.rhs, s.Writable

namespace Bnf

/-- A text can be a word just if it is read as one. -/
theorem isName_iff_tokens_eq (name : String) :
    IsName name.toList ↔ tokens name.toList = some [.word name] := by
  constructor
  · intro h
    have htokens := (tokens_word h trivial : tokens (name.toList ++ []) = _)
    rwa [List.append_nil, tokens_nil, Option.map_some, String.ofList_toList] at htokens
  · intro h
    exact (rendersTokens _ _ h).1 (.word name) List.mem_cons_self

instance (name : String) : Decidable (WritableName name) :=
  decidable_of_iff
    (tokens name.toList = some [.word name] ∧ name.toList.getLast? ≠ some '\\')
    (and_congr_left' (isName_iff_tokens_eq name).symm)

instance : (s : Symbol) → Decidable s.Writable
  | .nonterminal name => inferInstanceAs (Decidable (WritableName name))
  | .terminal _ => inferInstanceAs (Decidable (_ ∧ _))

instance (p : Production) : Decidable p.Writable :=
  decidable_of_iff
    (WritableName p.lhs ∧ p.lhs.toList.head? ≠ some ';' ∧ ∀ s ∈ p.rhs, s.Writable)
    ⟨fun ⟨hlhs, hcomment, hrhs⟩ => ⟨hlhs, hcomment, hrhs⟩,
      fun h => ⟨h.lhs, h.not_comment, h.rhs⟩⟩

/-! ## Writing -/

/-- A token as it is written. -/
def Token.spelling : Token → List Char
  | arrow => ['=']
  | bar => ['|']
  | word name => name.toList
  | quoted text => '"' :: (text.toList ++ ['"'])

/-- A line of tokens, with a space between any two. -/
def writtenLine (ts : List Token) : List Char := [' '].intercalate (ts.map Token.spelling)

/-- The tokens of a rule. -/
def Rule.tokens (rule : Rule) : List Token :=
  .word rule.name :: .arrow :: [.bar].intercalate (rule.alternatives.map (·.map Token.ofSymbol))

/-- A text of some lines. -/
def textOfLines (lines : List (List Char)) : String :=
  String.ofList (lines.flatMap (· ++ ['\n']))

/-- The text of some rules, with one line for each. -/
def writtenText (rules : List Rule) : String :=
  textOfLines (rules.map fun rule => writtenLine rule.tokens)

/-- The rule that has one production. -/
def ofProduction (p : Production) : Rule := ⟨p.lhs, [p.rhs]⟩

/-- A line with the tokens of a rule, which may be spaced in any way.  It does not end in
a backslash, nor in a return, which would go with its newline. -/
structure Rule.LaidOut (rule : Rule) (line : List Char) : Prop where
  renders : Renders false rule.tokens line
  newline_not_mem : '\n' ∉ line
  closed : cutBackslash line = none
  getLast?_ne : line.getLast? ≠ some '\r'

variable {t : Token} {ts : List Token} {line : List Char} {lines : List (List Char)}
  {rule : Rule} {rules : List Rule} {ps : List Production}

/-! ## Tokens that can be written -/

/-- A line that does not end in a blank or a backslash. -/
def EndsPlainly (line : List Char) : Prop :=
  ∃ c, line.getLast? = some c ∧ isBlank c = false ∧ c ≠ '\\'

/-- A token that can be written anywhere on a line. -/
structure Token.Writable (t : Token) : Prop where
  valid : t.Valid
  newline_not_mem : '\n' ∉ t.spelling
  endsPlainly : EndsPlainly t.spelling

theorem spelled_spelling (t : Token) : t.Spelled t.spelling := by
  cases t with
  | arrow => exact .equals
  | bar => exact .bar
  | word name => exact .word name
  | quoted text => exact .quoted text

theorem writable_arrow : Token.arrow.Writable where
  valid := trivial
  newline_not_mem := by decide
  endsPlainly := ⟨'=', rfl, by decide, by decide⟩

theorem writable_bar : Token.bar.Writable where
  valid := trivial
  newline_not_mem := by decide
  endsPlainly := ⟨'|', rfl, by decide, by decide⟩

theorem writable_word {name : String} (h : WritableName name) : (Token.word name).Writable where
  valid := h.1
  newline_not_mem hmem := absurd (h.1.plain _ hmem).1 (by decide)
  endsPlainly := by
    have hlast := List.getLast?_eq_some_getLast h.1.ne_nil
    refine ⟨_, hlast, (h.1.plain _ (List.getLast_mem h.1.ne_nil)).1, ?_⟩
    intro heq
    exact h.2 (heq ▸ hlast)

theorem writable_quoted {text : String} (hquote : '"' ∉ text.toList)
    (hnewline : '\n' ∉ text.toList) : (Token.quoted text).Writable where
  valid := hquote
  newline_not_mem := by simpa [Token.spelling] using hnewline
  endsPlainly := by
    refine ⟨'"', ?_, by decide, by decide⟩
    rw [Token.spelling, ← List.cons_append, List.getLast?_concat]

theorem writable_ofSymbol {s : Symbol} (h : s.Writable) : (Token.ofSymbol s).Writable := by
  cases s with
  | nonterminal name => exact writable_word h
  | terminal text => exact writable_quoted h.1 h.2

/-! ## Lines that are written -/

theorem writtenLine_cons (t : Token) (ts : List Token) :
    writtenLine (t :: ts) = t.spelling ++ ts.flatMap fun u => ' ' :: u.spelling := by
  rw [writtenLine, List.map_cons, Text.intercalate_cons, List.flatMap_map]
  rfl

theorem renders_writtenLine (t : Token) (ts : List Token) :
    Renders false (t :: ts) (writtenLine (t :: ts)) := by
  have hrest : ∀ (ts : List Token) (behindWord : Bool),
      Renders behindWord ts (ts.flatMap fun u => ' ' :: u.spelling) := by
    intro ts
    induction ts with
    | nil => exact fun _ => .done isGap_nil
    | cons u ts ih =>
        intro behindWord
        have hspace : IsGap [' '] := isGap_cons.mpr ⟨by decide, isGap_nil⟩
        exact .token hspace (fun _ _ => List.cons_ne_nil ' ' []) (spelled_spelling u) (ih _)
  rw [writtenLine_cons]
  exact .token isGap_nil nofun (spelled_spelling t) (hrest ts _)

theorem newline_not_mem_writtenLine (h : ∀ t ∈ ts, t.Writable) : '\n' ∉ writtenLine ts := by
  cases ts with
  | nil => exact List.not_mem_nil
  | cons t ts =>
      obtain ⟨ht, hts⟩ := List.forall_mem_cons.mp h
      rw [writtenLine_cons, List.mem_append, not_or, List.mem_flatMap]
      refine ⟨ht.newline_not_mem, ?_⟩
      rintro ⟨u, hu, hmem⟩
      rcases List.mem_cons.mp hmem with heq | hmem
      · exact absurd heq (by decide)
      · exact (hts u hu).newline_not_mem hmem

theorem EndsPlainly.append (h : EndsPlainly line) (before : List Char) :
    EndsPlainly (before ++ line) := by
  obtain ⟨c, hlast, hc⟩ := h
  exact ⟨c, by rw [List.getLast?_append, hlast, Option.some_or], hc⟩

theorem endsPlainly_writtenLine (ht : t.Writable) (hts : ∀ u ∈ ts, u.Writable) :
    EndsPlainly (writtenLine (t :: ts)) := by
  have hgo : ∀ line, EndsPlainly line →
      EndsPlainly (line ++ ts.flatMap fun u => ' ' :: u.spelling) := by
    induction ts with
    | nil => simp
    | cons u ts ih =>
        intro line hline
        obtain ⟨hu, hts⟩ := List.forall_mem_cons.mp hts
        rw [List.flatMap_cons, ← List.append_assoc]
        exact ih hts _ ((hu.endsPlainly.append [' ']).append line)
  rw [writtenLine_cons]
  exact hgo _ ht.endsPlainly

/-- A line that ends plainly is not joined with the next one. -/
theorem EndsPlainly.cutBackslash (h : EndsPlainly line) : cutBackslash line = none := by
  obtain ⟨c, hlast, hblank, hbackslash⟩ := h
  obtain ⟨before, rfl⟩ := List.getLast?_eq_some_iff.mp hlast
  rw [Bnf.cutBackslash, List.reverse_concat, List.dropWhile_cons_of_neg (by simp [hblank])]
  split
  · next heq => exact absurd (List.cons.inj heq).1 hbackslash
  · rfl

theorem EndsPlainly.getLast?_ne (h : EndsPlainly line) : line.getLast? ≠ some '\r' := by
  obtain ⟨c, hlast, hblank, -⟩ := h
  rw [hlast]
  rintro ⟨⟩
  exact absurd hblank (by decide)

/-! ## Rules that are written -/

/-- A rule with at least one alternative whose productions can be written. -/
structure Rule.Writable (rule : Rule) : Prop where
  ne_nil : rule.alternatives ≠ []
  productions : ∀ p ∈ rule.productions, p.Writable

namespace Rule.Writable

theorem stretches_body (h : rule.Writable) :
    stretches ([.bar].intercalate (rule.alternatives.map (·.map Token.ofSymbol))) =
      rule.alternatives.map (·.map Token.ofSymbol) := by
  rw [stretches_eq_splitOn]
  refine List.splitOn_intercalate _ ?_ (by simpa using h.ne_nil)
  intro stretch hstretch hbar
  obtain ⟨alternative, -, rfl⟩ := List.mem_map.mp hstretch
  obtain ⟨s, -, hs⟩ := List.mem_map.mp hbar
  cases s <;> cases hs

theorem name (h : rule.Writable) :
    WritableName rule.name ∧ rule.name.toList.head? ≠ some ';' := by
  obtain ⟨rhs, hrhs⟩ := List.exists_mem_of_ne_nil _ h.ne_nil
  have hp := h.productions ⟨rule.name, rhs⟩ (List.mem_map_of_mem hrhs)
  exact ⟨hp.lhs, hp.not_comment⟩

theorem tokens (h : rule.Writable) : ∀ t ∈ rule.tokens, t.Writable := by
  intro t ht
  rw [Rule.tokens, List.mem_cons, List.mem_cons] at ht
  rcases ht with rfl | rfl | ht
  · exact writable_word h.name.1
  · exact writable_arrow
  · by_cases hbar : t = .bar
    · rw [hbar]
      exact writable_bar
    · obtain ⟨stretch, hstretch, hmem⟩ := mem_stretch_iff.mpr ⟨ht, hbar⟩
      rw [h.stretches_body] at hstretch
      obtain ⟨rhs, hrhs, rfl⟩ := List.mem_map.mp hstretch
      obtain ⟨s, hs, rfl⟩ := List.mem_map.mp hmem
      exact writable_ofSymbol
        ((h.productions ⟨rule.name, rhs⟩ (List.mem_map_of_mem hrhs)).rhs s hs)

theorem laidOut_writtenLine (h : rule.Writable) : rule.LaidOut (writtenLine rule.tokens) := by
  obtain ⟨hname, hrest⟩ := List.forall_mem_cons.mp h.tokens
  have hends : EndsPlainly (writtenLine rule.tokens) := endsPlainly_writtenLine hname hrest
  exact ⟨renders_writtenLine _ _, newline_not_mem_writtenLine h.tokens, hends.cutBackslash,
    hends.getLast?_ne⟩

/-- The line of a rule writes it. -/
theorem ofLine_eq (h : rule.Writable) (hline : rule.LaidOut line) :
    Rule.ofLine line = .ok rule := by
  have htokens : Bnf.tokens line = some rule.tokens :=
    hline.renders.tokens_eq fun t ht => (h.tokens t ht).valid
  rw [Rule.ofLine, htokens]
  exact ofTokens_of_stretches h.stretches_body

/-- The line of a rule is no comment. -/
theorem isRuleLine (h : rule.Writable) (hline : rule.LaidOut line) (number : Nat) :
    isRuleLine (readable (number, line)) = true := by
  obtain ⟨⟨hname, -⟩, hcomment⟩ := h.name
  cases hline.renders with
  | @token _ gap _ rest _ _ hgap _ hspelled _ =>
      cases hspelled
      cases hcs : rule.name.toList with
      | nil => exact absurd hcs hname.ne_nil
      | cons c cs =>
          have hblank : isBlank c = false := (hname.plain c (hcs ▸ List.mem_cons_self)).1
          rw [hcs] at hcomment
          rw [readable, Bnf.isRuleLine, trimStart, List.dropWhile_append_of_pos hgap,
            List.cons_append, List.dropWhile_cons_of_neg (by simp [hblank])]
          simpa using hcomment

end Rule.Writable

/-! ## Texts of rules -/

theorem map_readLine_laidOut (h : ∀ rule ∈ rules, rule.Writable)
    (hlines : List.Forall₂ Rule.LaidOut rules lines) (file : String) (number : Nat) :
    ((joinLines none (numberFrom number (lines.map .ok))).filter isRuleLine).map
      (readLine file) = rules.map .ok := by
  induction hlines generalizing number with
  | nil => rfl
  | @cons rule line rules lines hline _ ih =>
      obtain ⟨hrule, hrules⟩ := List.forall_mem_cons.mp h
      rw [joinLines_cons, OpenLine.extend, hline.closed]
      simp only
      rw [List.filter_cons_of_pos (hrule.isRuleLine hline number), List.map_cons, ih hrules,
        List.map_cons]
      congr 1
      exact outcome_of_ok file number (hrule.ofLine_eq hline)

/-- The lines of rules that can be written give these rules. -/
theorem parse_textOfLines (h : ∀ rule ∈ rules, rule.Writable)
    (hlines : List.Forall₂ Rule.LaidOut rules lines) (file : String) :
    parse (textOfLines lines) file = .ok (grammarOfRules rules) := by
  have hread : Text.lines (textOfLines lines).toList = lines := by
    rw [textOfLines, String.toList_ofList]
    apply Text.linesFrom_flatMap
    clear h
    induction hlines with
    | nil => simp
    | cons hline _ ih =>
        exact List.forall_mem_cons.mpr ⟨⟨hline.newline_not_mem, hline.getLast?_ne⟩, ih⟩
  rw [parse, hread, readLines, map_readLine_laidOut h hlines, collect_map_ok]

theorem grammarOfRules_eq (h : ∀ rule ∈ rules, rule.alternatives ≠ []) :
    grammarOfRules rules =
      .ofProductions (((rules.flatMap Rule.productions).head?.map (·.lhs)).getD "")
        (rules.flatMap Rule.productions) := by
  rw [grammarOfRules]
  congr 2
  cases rules with
  | nil => rfl
  | cons rule rules =>
      obtain ⟨rhs, rest, hrhs⟩ := List.exists_cons_of_ne_nil (h rule List.mem_cons_self)
      rw [List.flatMap_cons, Rule.productions, hrhs]
      rfl

/-- Productions that can be written are read back from a text with a line for each
of them, and from every text of rules that they are put together to, in whatever way
these are spaced.  The start name is that of the first production, and empty if there
is none. -/
theorem parse_writtenText (h : ∀ p ∈ ps, p.Writable) (file : String) :
    parse (writtenText (ps.map ofProduction)) file =
        .ok (.ofProductions ((ps.head?.map (·.lhs)).getD "") ps) ∧
    ∀ rules : List Rule, (∀ rule ∈ rules, rule.alternatives ≠ []) →
      (rules.flatMap fun rule => rule.alternatives.map fun rhs => ⟨rule.name, rhs⟩) = ps →
      parse (writtenText rules) file =
          .ok (.ofProductions ((ps.head?.map (·.lhs)).getD "") ps) ∧
      ∀ lines, List.Forall₂ Rule.LaidOut rules lines →
        parse (textOfLines lines) file =
          .ok (.ofProductions ((ps.head?.map (·.lhs)).getD "") ps) := by
  have hrules : ∀ rules : List Rule, (∀ rule ∈ rules, rule.alternatives ≠ []) →
      rules.flatMap Rule.productions = ps →
      parse (writtenText rules) file =
          .ok (.ofProductions ((ps.head?.map (·.lhs)).getD "") ps) ∧
      ∀ lines, List.Forall₂ Rule.LaidOut rules lines →
        parse (textOfLines lines) file =
          .ok (.ofProductions ((ps.head?.map (·.lhs)).getD "") ps) := by
    rintro rules hne rfl
    have hwritable : ∀ rule ∈ rules, rule.Writable := fun rule hrule =>
      ⟨hne rule hrule, fun p hp => h p (List.mem_flatMap.mpr ⟨rule, hrule, hp⟩)⟩
    have hwritten : List.Forall₂ Rule.LaidOut rules
        (rules.map fun rule => writtenLine rule.tokens) :=
      List.forall₂_map_right_iff.mpr
        (List.forall₂_same.mpr fun rule hrule => (hwritable rule hrule).laidOut_writtenLine)
    rw [← grammarOfRules_eq hne]
    exact ⟨parse_textOfLines hwritable hwritten file,
      fun lines hlines => parse_textOfLines hwritable hlines file⟩
  refine ⟨(hrules _ ?_ ?_).1, hrules⟩
  · intro rule hrule
    obtain ⟨p, -, rfl⟩ := List.mem_map.mp hrule
    exact List.cons_ne_nil p.rhs []
  · rw [List.flatMap_map]
    exact List.flatMap_singleton' ps

/-- Productions with dashes in names, and in terminals whatever may end a token, a
rule or a line. -/
def trickyProductions : List Production :=
  [⟨"A-B", [.terminal "-> = | ;", .nonterminal "-"]⟩, ⟨"A-B", []⟩,
    ⟨"-", [.terminal " \\", .nonterminal ";", .terminal "\r"]⟩, ⟨"A-B", [.terminal ""]⟩]

/-- The same productions as rules, two of them in one. -/
def trickyRules : List Rule :=
  [⟨"A-B", [[.terminal "-> = | ;", .nonterminal "-"], []]⟩,
    ⟨"-", [[.terminal " \\", .nonterminal ";", .terminal "\r"]]⟩, ⟨"A-B", [[.terminal ""]]⟩]

/-- Lines of these rules with little white space. -/
def trickyLines : List (List Char) :=
  ["A-B=\"-> = | ;\"-|".toList, " -->\" \\\";\"\r\"".toList, "A-B -> \"\"\t".toList]

theorem laidOut_trickyLines : List.Forall₂ Rule.LaidOut trickyRules trickyLines := by
  have hlaidOut : ∀ rule : Rule, ∀ line, tokens line = some rule.tokens → '\n' ∉ line →
      cutBackslash line = none → line.getLast? ≠ some '\r' → rule.LaidOut line :=
    fun rule line htokens hnewline hclosed hlast =>
      ⟨(rendersTokens line _ htokens).2 false (by simp), hnewline, hclosed, hlast⟩
  refine .cons ?_ (.cons ?_ (.cons ?_ .nil)) <;>
    apply hlaidOut <;> decide +kernel

theorem parse_trickyProductions :
    (∀ p ∈ trickyProductions, p.Writable) ∧
      parse (writtenText (trickyProductions.map ofProduction)) "f" =
        .ok (.ofProductions "A-B" trickyProductions) ∧
      parse (writtenText trickyRules) "f" = .ok (.ofProductions "A-B" trickyProductions) ∧
      parse (textOfLines trickyLines) "f" = .ok (.ofProductions "A-B" trickyProductions) := by
  have hwritable : ∀ p ∈ trickyProductions, p.Writable := by decide +kernel
  obtain ⟨hsingle, hrules⟩ := parse_writtenText hwritable "f"
  obtain ⟨hwritten, hlines⟩ := hrules trickyRules (by decide) (by decide)
  exact ⟨hwritable, hsingle, hwritten, hlines trickyLines laidOut_trickyLines⟩

example : writtenText trickyRules =
    "A-B = \"-> = | ;\" - |\n- = \" \\\" ; \"\r\"\nA-B = \"\"\n" := by decide +kernel

end Bnf

end SentenceGuide
