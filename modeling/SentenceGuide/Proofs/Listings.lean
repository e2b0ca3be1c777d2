import SentenceGuide.Cli.Run
import SentenceGuide.Proofs.RuleTerminals
import SentenceGuide.Proofs.Viable

/-!
# What a listing tells

The command `next` prints the candidates one on each line, and a last line
`(complete)` if the tokens are a sentence.  Candidates are terminals of the grammar,
and a terminal that is read from a file of rules holds no newline.  So the lines can
be told from the output.

The last line cannot be told from a candidate.  A terminal may be spelled like it,
although the sentinel of the search is none of the terminals.  Then two runs print
the same: one finds that candidate and no sentence, and the other finds a sentence
and not that candidate.  There is no other way for two runs to print the same
(`outputText_eq_iff`).
-/

namespace SentenceGuide.Cli

/-! ## Texts of lines -/

theorem toList_textOf (lines : List String) :
    (Transcript.textOf lines).toList = (lines.map String.toList).flatMap (· ++ ['\n']) := by
  simp [Transcript.textOf, String.toList_join, List.flatMap_map]

/-- Lines without newlines are read back from their text.  A return belongs to its line
here, so that the newline stands in for it. -/
theorem linesFrom_textOf {lines : List String} (h : ∀ line ∈ lines, '\n' ∉ line.toList) :
    Text.linesFrom '\n' '\n' [] (Transcript.textOf lines).toList = lines.map String.toList := by
  rw [toList_textOf]
  apply Text.linesFrom_flatMap
  intro line hline
  obtain ⟨line, hmem, rfl⟩ := List.mem_map.mp hline
  exact ⟨h line hmem, fun hlast => h line hmem (List.mem_of_getLast? hlast)⟩

theorem textOf_inj {lines lines' : List String} (h : ∀ line ∈ lines, '\n' ∉ line.toList)
    (h' : ∀ line ∈ lines', '\n' ∉ line.toList) :
    Transcript.textOf lines = Transcript.textOf lines' ↔ lines = lines' := by
  constructor
  · intro heq
    have hmap : lines.map String.toList = lines'.map String.toList := by
      rw [← linesFrom_textOf h, heq, linesFrom_textOf h']
    exact List.map_injective_iff.mpr (fun _ _ => String.toList_injective) hmap
  · exact congrArg Transcript.textOf

/-! ## Listings -/

/-- A completion of a sentence is listed like one of no sentence that has one more
candidate, which is spelled like the last line. -/
def ListedAs (c c' : Completion) : Prop :=
  c.isComplete = true ∧ c'.isComplete = false ∧ c'.candidates = c.candidates ++ [completeMark]

theorem listing_eq_iff {c c' : Completion} :
    listing c = listing c' ↔ c = c' ∨ ListedAs c c' ∨ ListedAs c' c := by
  obtain ⟨candidates, isComplete⟩ := c
  obtain ⟨candidates', isComplete'⟩ := c'
  cases isComplete with
  | true =>
      cases isComplete' with
      | true => simp [listing, ListedAs]
      | false => simp [listing, ListedAs, eq_comm (a := candidates')]
  | false =>
      cases isComplete' with
      | true => simp [listing, ListedAs]
      | false => simp [listing, ListedAs]

/-! ## Runs -/

/-- A run of `next` on a file of rules that gives a grammar. -/
structure NextRun where
  /-- How many configurations the search may take. -/
  budget : Nat
  /-- The command line. -/
  arguments : List String
  /-- What paths hold. -/
  sources : String → Source
  /-- The random words, of which the run uses none. -/
  scripts : Nat → List UInt64
  /-- What the command line says. -/
  line : Arguments
  /-- The tokens entered so far. -/
  tokens : List String
  /-- The grammar of the file. -/
  grammar : Grammar
  /-- What the tokens come to. -/
  completion : Completion
  /-- What the run leaves behind. -/
  transcript : Transcript
  /-- The command line is well formed. -/
  parse_eq : parse arguments = .ok line
  /-- Its command is `next`. -/
  command_eq : line.command = .next tokens
  /-- The file is read as a rule text. -/
  format_eq : line.usedFormat = .bnf
  /-- It gives the grammar. -/
  load_eq : Bnf.load (sources line.file) line.file = some (.ok grammar)
  /-- The search drains. -/
  complete_eq :
    (chooseStart grammar line.start).complete budget line.order tokens = some completion
  /-- The command line is answered. -/
  answer_eq : answer budget arguments sources scripts = some transcript

namespace NextRun

theorem output_eq (r : NextRun) : r.transcript.output = listing r.completion := by
  obtain ⟨e, hseek, hcompletion⟩ := Option.map_eq_some_iff.mp r.complete_eq
  have hload : r.line.usedFormat.load (r.sources r.line.file) r.line.file =
      some (.ok r.grammar) := by
    rw [r.format_eq, Format.load, r.load_eq]
  have hanswer := r.answer_eq
  simp only [answer, r.parse_eq, run, runAll, runLoaded, hload, carryOut, r.command_eq, hseek]
    at hanswer
  rw [← Option.some.inj hanswer, ← hcompletion]
  rfl

theorem terminals_chooseStart (g : Grammar) (start : Option String) :
    (chooseStart g start).terminals = g.terminals := by
  cases start <;> rfl

/-- No line that a run prints holds a newline of its own. -/
theorem newline_not_mem_listing (r : NextRun) :
    ∀ line ∈ listing r.completion, '\n' ∉ line.toList := by
  intro line hline
  rcases List.mem_append.mp hline with hline | hline
  · have hterminal := Grammar.candidates_subset_terminals r.complete_eq hline
    rw [terminals_chooseStart] at hterminal
    exact (Bnf.plain_of_mem_terminals r.load_eq hterminal).1
  · split at hline
    · rw [List.mem_singleton.mp hline]
      decide
    · exact absurd hline List.not_mem_nil

/-- Two runs print the same just if the tokens come to the same, or if one run finds
a sentence and the other one finds, beside the same candidates, one that is spelled
like the last line. -/
theorem outputText_eq_iff (r r' : NextRun) :
    r.transcript.outputText = r'.transcript.outputText ↔
      r.completion = r'.completion ∨ ListedAs r.completion r'.completion ∨
        ListedAs r'.completion r.completion := by
  rw [Transcript.outputText, Transcript.outputText, output_eq, output_eq,
    textOf_inj r.newline_not_mem_listing r'.newline_not_mem_listing, listing_eq_iff]

/-- Every path holds one rule text. -/
def ofText (text : String) : String → Source := fun _ => .bytes (Text.Utf8.encode text.toList)

/-- The only sentence is the empty one. -/
def onNothing : NextRun where
  budget := 10
  arguments := ["g", "next"]
  sources := ofText "S =\n"
  scripts _ := []
  line := ofCommand 0 (.next [])
  tokens := []
  grammar := .ofProductions "S" [⟨"S", []⟩]
  completion := ⟨[], true⟩
  transcript := ⟨0, ["(complete)"], []⟩
  parse_eq := by decide +kernel
  command_eq := rfl
  format_eq := by decide +kernel
  load_eq := by decide +kernel
  complete_eq := by decide +kernel
  answer_eq := by decide +kernel

/-- The only sentence is one token that is spelled like the last line. -/
def onMark : NextRun where
  budget := 10
  arguments := ["g", "next"]
  sources := ofText "S = \"(complete)\"\n"
  scripts _ := []
  line := ofCommand 0 (.next [])
  tokens := []
  grammar := .ofProductions "S" [⟨"S", [.terminal "(complete)"]⟩]
  completion := ⟨["(complete)"], false⟩
  transcript := ⟨0, ["(complete)"], []⟩
  parse_eq := by decide +kernel
  command_eq := rfl
  format_eq := by decide +kernel
  load_eq := by decide +kernel
  complete_eq := by decide +kernel
  answer_eq := by decide +kernel

/-- The output does not tell whether the tokens are a sentence, nor what can follow
them. -/
theorem output_ambiguous :
    onNothing.transcript.outputText = onMark.transcript.outputText ∧
      onNothing.completion.candidates ≠ onMark.completion.candidates ∧
      onNothing.completion.isComplete ≠ onMark.completion.isComplete := by
  decide +kernel

end NextRun

end SentenceGuide.Cli
