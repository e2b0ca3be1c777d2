import SentenceGuide.Text.Blank
import SentenceGuide.Text.Lines
import SentenceGuide.Text.Utf8
import SentenceGuide.Text.Quoted
import SentenceGuide.Text.Vocabulary
import SentenceGuide.Grammar.Basic
import SentenceGuide.Path
import SentenceGuide.Source
import SentenceGuide.Located
import SentenceGuide.Bnf.Token
import SentenceGuide.Bnf.Rule
import SentenceGuide.Bnf.LogicalLine
import SentenceGuide.Number.Shortest
import SentenceGuide.Json.Fault
import SentenceGuide.Json.Text
import SentenceGuide.Json.Number
import SentenceGuide.Json.Skip
import SentenceGuide.Json.Document
import SentenceGuide.Json.Writer
import SentenceGuide.GrammarFault
import SentenceGuide.Bnf.Document
import SentenceGuide.Loading
import SentenceGuide.Search.Exploration
import SentenceGuide.Completion
import SentenceGuide.Diagnostic
import SentenceGuide.Composer
import SentenceGuide.Session
import SentenceGuide.Cli.Arguments
import SentenceGuide.Folder
import SentenceGuide.Cli.Transcript
import SentenceGuide.Cli.Run
import SentenceGuide.Cli.Console
import SentenceGuide.Main
import SentenceGuide.Proofs.Productions
import SentenceGuide.Proofs.Derivation
import SentenceGuide.Proofs.Steps
import SentenceGuide.Proofs.Draining
import SentenceGuide.Proofs.Findings
import SentenceGuide.Proofs.Language
import SentenceGuide.Proofs.Order
import SentenceGuide.Proofs.Termination
import SentenceGuide.Proofs.Rules
import SentenceGuide.Proofs.Rendering
import SentenceGuide.Proofs.LogicalLines
import SentenceGuide.Proofs.RuleTexts
import SentenceGuide.Proofs.Picks
import SentenceGuide.Proofs.Viable
import SentenceGuide.Proofs.Composing
import SentenceGuide.Proofs.Inclusion
import SentenceGuide.Proofs.Lines
import SentenceGuide.Proofs.RuleTerminals
import SentenceGuide.Proofs.Listings
import SentenceGuide.Proofs.WrittenRules
import SentenceGuide.Proofs.TextReadings
import SentenceGuide.Proofs.TextSpellings
import SentenceGuide.Proofs.SkippedNumbers
import SentenceGuide.Proofs.SkippedValues
import SentenceGuide.Proofs.DocumentReaders
import SentenceGuide.Proofs.Documents
import SentenceGuide.Proofs.Extending
import SentenceGuide.Proofs.RuleFiles
import SentenceGuide.Proofs.PhysicalLines
import SentenceGuide.Proofs.Verbosity
import SentenceGuide.Proofs.Sentinel
import SentenceGuide.Proofs.Traversal
import SentenceGuide.Proofs.ParseTrees
import SentenceGuide.Proofs.Multiplicity
import SentenceGuide.Proofs.Alphabet
import SentenceGuide.Proofs.RuleFaults
import SentenceGuide.Proofs.AppendedTexts
import SentenceGuide.Proofs.DocumentSpellings
import SentenceGuide.Proofs.AcceptedDocuments
import SentenceGuide.Json.Stream.Basic
import SentenceGuide.Json.Stream.Text
import SentenceGuide.Json.Stream.Number
import SentenceGuide.Json.Stream.Skip
import SentenceGuide.Proofs.StreamTexts
import SentenceGuide.Proofs.StreamNumbers
import SentenceGuide.Proofs.StreamValues
import SentenceGuide.Proofs.StreamRecords
import SentenceGuide.Proofs.StreamDocuments
import SentenceGuide.Proofs.LineEnds
import SentenceGuide.Proofs.Indexing
import SentenceGuide.Proofs.FairPicks
import SentenceGuide.Proofs.ComposingBounds
import SentenceGuide.Proofs.MaximalMunch
