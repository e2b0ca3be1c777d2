import SentenceGuide.Json.Document
import SentenceGuide.Proofs.Productions

/-!
# What an index tells

The index of a grammar says no more than its productions do, and no less than the names on
their left: the places of all names together are the list of these names in order
(`places_ofNames_inj`).

A grammar is declared, converted from the record of a document, or given another start name.
However it was made, its productions are those that were declared, and its start name is the
one that it was given last (`Made.eq`).  So its index finds just what was declared, and it is
equal to another grammar just if both were made of the same (`index_is_faithful`).
-/

namespace SentenceGuide.Grammar

variable {g h : Grammar} {name start start' : String} {ps ps' : List Production} {place : Nat}

namespace Index

variable {names names' : List String} {index : Index}

theorem mem_names_addFrom :
    name ∈ (addFrom place names index).names ↔ name ∈ names ∨ name ∈ index.names := by
  induction names generalizing place index with
  | nil => simp [addFrom]
  | cons n names ih => rw [addFrom, ih, mem_names_add, List.mem_cons, or_assoc, or_left_comm]

/-- An index has entries for the names of its list and for no others. -/
theorem mem_names_ofNames : name ∈ (ofNames names).names ↔ name ∈ names := by
  rw [ofNames, mem_names_addFrom]
  exact or_iff_left List.not_mem_nil

theorem mem_places_ofNames : place ∈ (ofNames names).places name ↔ names[place]? = some name := by
  rw [places_ofNames, mem_placesFrom]
  simp

/-- The places of all names determine the list of the names. -/
theorem places_ofNames_inj :
    (∀ name, (ofNames names).places name = (ofNames names').places name) ↔ names = names' := by
  constructor
  · intro h
    apply List.ext_getElem?
    intro place
    apply Option.ext
    intro name
    rw [← mem_places_ofNames, ← mem_places_ofNames, h name]
  · rintro rfl name
    rfl

end Index

/-! ## What a grammar was made of -/

/-- A grammar that was made with a start name and productions. -/
inductive Made : String → List Production → Grammar → Prop where
  /-- It was declared with them. -/
  | declared (start : String) (ps : List Production) : Made start ps (ofProductions start ps)
  /-- It was converted from the record of a document that holds them. -/
  | converted {bytes : List UInt8} {record : Json.Reading (String × List Production) bytes.length}
      {read : Json.Reading Grammar bytes.length} :
      Json.readRecord Json.grammarShape bytes = .ok record → Json.readGrammar bytes = .ok read →
        Made record.value.1 record.value.2 read.value
  /-- It has the productions of another grammar and was given the start name. -/
  | restarted {start : String} {ps : List Production} {g : Grammar} (start' : String) :
      Made start ps g → Made start' ps (g.withStart start')

/-- What a grammar was made of is all that there is to it. -/
theorem Made.eq (h : Made start ps g) : g = ofProductions start ps := by
  induction h with
  | declared => rfl
  | converted hrecord hread =>
      rw [Json.readGrammar, Json.mapReader, hrecord] at hread
      cases hread
      rfl
  | restarted start' _ ih => rw [withStart, ih, productions_ofProductions]

theorem ofProductions_inj :
    ofProductions start ps = ofProductions start' ps' ↔ start = start' ∧ ps = ps' := by
  constructor
  · intro h
    exact ⟨congrArg Grammar.start h, congrArg Grammar.productions h⟩
  · rintro ⟨rfl, rfl⟩
    rfl

/-! ## What the index finds -/

/-- No place in the index is beyond the productions. -/
theorem lt_length_of_mem_places (hplace : place ∈ g.index.places name) :
    place < g.productions.length := by
  obtain ⟨p, hp, -⟩ := mem_places_iff.mp hplace
  exact (List.getElem?_eq_some_iff.mp hp).1

theorem mem_nonterminals : name ∈ g.nonterminals ↔ ∃ p ∈ g.productions, p.lhs = name := by
  rw [nonterminals, Text.Vocabulary.mem_ofList, g.index_eq, Index.mem_names_ofNames, List.mem_map]

/-- Indices have the same places for all names just if the productions have the same names on
their left, in the same order. -/
theorem places_eq_iff :
    (∀ name, g.index.places name = h.index.places name) ↔
      g.productions.map (·.lhs) = h.productions.map (·.lhs) := by
  rw [g.index_eq, h.index_eq]
  exact Index.places_ofNames_inj

/-- However a grammar was made, the productions found for a name are those declared for it, each
as often as it was declared and in order, and no place looked at is beyond the productions.
The nonterminals are the names on the left of what was declared, each of them once.  Two
grammars are equal, their indices included, just if they were made with the same start name and
productions, and their indices alone tell the names on the left.  Of several start names given
to a grammar the last one counts, and one that it has already changes nothing. -/
theorem index_is_faithful (hmade : Made start ps g) :
    (∀ name, g.productionsFor name = ps.filter (·.lhs = name) ∧
      ∀ place ∈ g.index.places name, place < g.productions.length) ∧
    ((∀ name, name ∈ g.nonterminals ↔ ∃ p ∈ ps, p.lhs = name) ∧
      g.nonterminals.Pairwise (· < ·)) ∧
    (∀ start' ps' h, Made start' ps' h →
      (g = h ↔ start = start' ∧ ps = ps') ∧
      ((∀ name, g.index.places name = h.index.places name) ↔
        ps.map (·.lhs) = ps'.map (·.lhs))) ∧
    (∀ first second, (g.withStart first).withStart second = g.withStart second) ∧
    g.withStart g.start = g := by
  obtain rfl := hmade.eq
  refine ⟨fun name => ⟨productionsFor_eq_filter _ name, fun _ => lt_length_of_mem_places⟩,
    ⟨fun _ => mem_nonterminals, Text.Vocabulary.pairwise_ofList _⟩, ?_, fun _ _ => rfl, rfl⟩
  intro start' ps' h hmade'
  obtain rfl := hmade'.eq
  exact ⟨ofProductions_inj, places_eq_iff⟩

/-- A name with two productions around that of another, one of them twice. -/
def scattered : List Production :=
  [⟨"S", [.terminal "a"]⟩, ⟨"D", []⟩, ⟨"S", []⟩, ⟨"S", [.terminal "a"]⟩]

theorem index_is_faithful_scattered :
    Made "D" scattered ((ofProductions "S" scattered).withStart "D") ∧
      ((ofProductions "S" scattered).withStart "D").productionsFor "S" =
        [⟨"S", [.terminal "a"]⟩, ⟨"S", []⟩, ⟨"S", [.terminal "a"]⟩] ∧
      (ofProductions "S" scattered).withStart "D" ≠ ofProductions "S" scattered ∧
      ((ofProductions "S" scattered).withStart "D").withStart "S" =
        ofProductions "S" scattered := by
  have hmade : Made "D" scattered ((ofProductions "S" scattered).withStart "D") :=
    .restarted "D" (.declared "S" scattered)
  obtain ⟨hproductions, -, hequal, -⟩ := index_is_faithful hmade
  refine ⟨hmade, ?_, ?_, ?_⟩
  · exact (hproductions "S").1.trans (by decide +kernel)
  · rw [Ne, (hequal "S" scattered _ (.declared "S" scattered)).1]
    decide
  · rfl

end SentenceGuide.Grammar
