import SentenceGuide.Loading
import SentenceGuide.Proofs.StreamRecords

/-!
# Documents of a stream

A grammar is read off a stream as it is read off the whole document, and a fault has the
same cause.  Its place is the one that the reader of the bytes gives for a stream
(`readStream_eq`).

So a file gives the grammar that its text gives, or each of them has one fault, and the two
differ in their places alone (`load_agrees_with_parse`).
-/

namespace SentenceGuide.Json

open Text.Utf8 (encode)

variable {α β : Type}

/-! ## Grammars -/

theorem mapReader_follows (f : α → β) {read : Stream.Reader α} {read' : Reader α}
    (h : Follows read read') : Follows (Stream.mapReader f read) (mapReader f read') := by
  intro document s hs
  rw [Stream.mapReader, mapReader]
  obtain ⟨_, _, hx, hy, herror⟩ | ⟨_, _, _, _, hx, hy, hof, -⟩ := (h hs).cases
  · rw [hx, hy]
    exact herror.of_error
  · rw [hx, hy]
    exact .ok hof trivial

theorem readSymbol_follows : Follows Stream.readSymbol readSymbol :=
  mapReader_follows _ (readRecord_follows readString_follows readFlag_follows)

theorem readProduction_follows : Follows Stream.readProduction readProduction :=
  mapReader_follows _
    (readRecord_follows readString_follows (readList_follows readSymbol_follows))

theorem readGrammar_follows : Follows Stream.readGrammar readGrammar :=
  mapReader_follows _
    (readRecord_follows readString_follows (readList_follows readProduction_follows))

/-! ## Documents -/

/-- A document that arrives byte by byte gives what the whole document gives, and its
faults are where a stream has them. -/
theorem readStream_eq (document : List UInt8) :
    readStream document = readBytes .stream document := by
  have hmalformed : ∀ {problem : Stream.Fault} {fault : Fault},
      Agrees (α := Grammar) document (fun _ => True) (.error problem) (.error fault) →
      DocumentFault.malformed problem.reason problem.place =
        .malformed fault.reason (fault.position .stream document) := by
    intro problem fault h
    cases h with
    | error hreason hplace => rw [hreason, hplace]
  rw [readStream, Stream.readDocument, readBytes, readDocument]
  have hagrees : Agrees document (fun _ => True)
      (Stream.untied (Stream.readGrammar (.start document))) (untied (readGrammar document)) :=
    readGrammar_follows (Stream.of_start document)
  obtain ⟨_, _, hx, hy, herror⟩ | ⟨g, rest, _, _, hx, hy, hof, -⟩ := hagrees.cases
  · rw [hx, hy]
    exact congrArg Except.error (hmalformed herror)
  rw [hx, hy]
  dsimp only
  obtain ⟨hnext, hbytes⟩ | ⟨b, more, _, hnext, hbytes, hmore⟩ := hof.nextVisible
  · rw [hnext, hbytes]
  · rw [hnext, hbytes]
    exact congrArg Except.error (hmalformed (agrees_seen hmore .trailingCharacters rfl))

/-- A file that holds a text gives a grammar exactly if the text gives it.  Otherwise there
is one fault on each side.  The two are of the same sort, and the same but for their places. -/
theorem load_agrees_with_parse (text file origin : String) :
    (∀ g, load (.bytes (encode text.toList)) file = .ok g ↔ parse text origin = .ok g) ∧
      ((∃ g, parse text origin = .ok g) ∨
        ∃ fault fault' : DocumentFault,
          load (.bytes (encode text.toList)) file =
            .error [⟨⟨file, fault.line⟩, .document fault⟩] ∧
          parse text origin = .error [⟨⟨origin, fault'.line⟩, .document fault'⟩] ∧
          fault.category = fault'.category ∧ fault.cause = fault'.cause) := by
  rw [load, readStream_eq, parse, readDocumentText, readBytes, readBytes]
  cases readDocument (encode text.toList) with
  | ok g => exact ⟨fun _ => Iff.rfl, .inl ⟨g, rfl⟩⟩
  | error fault =>
      exact ⟨fun _ => ⟨fun h => (by cases h), fun h => (by cases h)⟩,
        .inr ⟨_, _, rfl, rfl, rfl, rfl⟩⟩

end SentenceGuide.Json
