import SentenceGuide.Loading
import SentenceGuide.Proofs.DocumentReaders
import SentenceGuide.Proofs.Lines

/-!
# Documents are read back

A reader takes what is written for a value if it gives that value and leaves what
stands behind, whatever that is (`Takes`).  Texts and flags are taken.  If the parts
of a list or of a record are taken, the list or the record is taken too.  Symbols,
productions and grammars are made up of these, so the document of a grammar is read
as that grammar (`parse_document`).
-/

namespace SentenceGuide.Json

open Text.Utf8 (encode)

variable {α β : Type} {read : Reader α} {element : Reader α} {shape : Shape α β}
  {rest : List UInt8} {value : α} {b : UInt8} {bound : Nat} {done values : List α}
  {written : List Char}

/-! ## Readers that take what is written -/

/-- A reader takes what is written for a value: it gives the value and leaves what
stands behind.  What is written does not begin with a blank or a closing bracket. -/
structure Takes (read : Reader α) (written : List Char) (value : α) : Prop where
  visible : ∃ b more, encode written = b :: more ∧ isBlank b = false ∧ b ≠ byte ']'
  taken : ∀ rest, outcome read (encode written ++ rest) = .ok (value, rest)

theorem Takes.exists_eq (h : Takes read written value) (rest : List UInt8) :
    ∃ b more, encode written ++ rest = b :: more ∧ skipBlanks (b :: more) = b :: more ∧
      b ≠ byte ']' ∧ outcome read (b :: more) = .ok (value, rest) := by
  obtain ⟨b, more, heq, hblank, hb⟩ := h.visible
  have hbytes : encode written ++ rest = b :: (more ++ rest) := by rw [heq, List.cons_append]
  exact ⟨b, more ++ rest, hbytes, skipBlanks_visible hblank _, hb, hbytes ▸ h.taken rest⟩

theorem Takes.map {f : α → β} {mapped : β} (h : Takes read written value)
    (hf : f value = mapped) : Takes (mapReader f read) written mapped where
  visible := h.visible
  taken rest := by
    obtain ⟨_, hread⟩ := outcome_eq_ok_iff.mp (h.taken rest)
    simp only [outcome, mapReader, hread, ← hf]
    rfl

theorem encode_cons (c : Char) (cs : List Char) :
    encode (c :: cs) = Text.Utf8.encodeChar c ++ encode cs :=
  List.flatMap_cons

/-! ## Texts and flags -/

/-- A text that is written between quotes is read behind the first of them. -/
theorem encode_writeText (s : String) (rest : List UInt8) :
    ∃ bytes, encode (writeText s) ++ rest = byte '"' :: bytes ∧
      outcome readText bytes = .ok (s, rest) := by
  have hread := outcome_readText (textSpelled_flatMap_writeChar s.toList) rest
  rw [String.ofList_toList] at hread
  refine ⟨_, ?_, hread⟩
  rw [writeText, List.cons_append, encode_cons, encode_append, List.append_assoc, List.append_assoc]
  rfl

theorem takes_string (s : String) : Takes readString (writeText s) s where
  visible := ⟨byte '"', _, rfl, by decide, by decide⟩
  taken rest := by
    obtain ⟨bytes, heq, hread⟩ := encode_writeText s rest
    rw [heq, outcome_readString (skipBlanks_visible (by decide) _), hread]

theorem takes_flag (flag : Bool) : Takes readFlag (writeFlag flag) flag := by
  cases flag with
  | true =>
      refine ⟨⟨byte 't', _, rfl, by decide, by decide⟩, fun rest => ?_⟩
      exact outcome_readFlag_true (skipBlanks_visible (by decide) _) rfl
  | false =>
      refine ⟨⟨byte 'f', _, rfl, by decide, by decide⟩, fun rest => ?_⟩
      exact outcome_readFlag_false (skipBlanks_visible (by decide) _) rfl

/-! ## Lists and records -/

/-- The elements of a list behind the first one have commas before them. -/
theorem readElements_behind {write : α → List Char}
    (h : ∀ value ∈ values, Takes element (write value) value)
    (within : (encode (values.flatMap ([','] ++ write ·)) ++ byte ']' :: rest).length ≤ bound) :
    ∃ hlt, readElements element bound false done
        (encode (values.flatMap ([','] ++ write ·)) ++ byte ']' :: rest) within =
      .ok ⟨done.reverse ++ values, rest, hlt⟩ := by
  induction values generalizing done with
  | nil =>
      rw [List.append_nil]
      exact readElements_end (skipBlanks_visible (by decide) rest) within
  | cons value values ih =>
      obtain ⟨hvalue, hvalues⟩ := List.forall_mem_cons.mp h
      obtain ⟨b, more, hbytes, hvisible, hb, hread⟩ := hvalue.exists_eq
        (encode (values.flatMap ([','] ++ write ·)) ++ byte ']' :: rest)
      have heq : encode ((value :: values).flatMap ([','] ++ write ·)) ++ byte ']' :: rest =
          byte ',' :: (b :: more) := by
        rw [List.flatMap_cons, List.append_assoc, encode_append, encode_append,
          List.append_assoc, List.append_assoc, hbytes]
        rfl
      simp only [heq] at within ⊢
      obtain ⟨within', hstep⟩ := readElements_next
        (skipBlanks_visible (b := byte ',') (by decide) _) hvisible hb hread within
      rw [hstep]
      obtain ⟨hlt, hrest⟩ := ih hvalues within'
      exact ⟨hlt, by rw [hrest, List.reverse_cons, List.append_assoc, List.singleton_append]⟩

theorem encode_writeList (items : List (List Char)) (rest : List UInt8) :
    encode (writeList items) ++ rest =
      byte '[' :: (encode ([','].intercalate items) ++ byte ']' :: rest) := by
  rw [writeList, List.cons_append, encode_cons, encode_append, List.append_assoc, List.append_assoc]
  rfl

theorem takes_list {write : α → List Char}
    (h : ∀ value ∈ values, Takes element (write value) value) :
    Takes (readList element) (writeList (values.map write)) values where
  visible := ⟨byte '[', _, rfl, by decide, by decide⟩
  taken rest := by
    rw [encode_writeList]
    cases values with
    | nil =>
        exact outcome_readList (skipBlanks_visible (by decide) _)
          (readElements_end (skipBlanks_visible (by decide) rest) _)
    | cons value values =>
        obtain ⟨hvalue, hvalues⟩ := List.forall_mem_cons.mp h
        obtain ⟨b, more, hbytes, hvisible, hb, hread⟩ := hvalue.exists_eq
          (encode (values.flatMap ([','] ++ write ·)) ++ byte ']' :: rest)
        have heq : encode ([','].intercalate ((value :: values).map write)) ++ byte ']' :: rest =
            b :: more := by
          rw [List.map_cons, Text.intercalate_cons, List.flatMap_map, encode_append,
            List.append_assoc, hbytes]
        have hopen := skipBlanks_visible (b := byte '[') (by decide) (b :: more)
        obtain ⟨within, hstep⟩ := readElements_first hvisible hb hread
          (Nat.le_of_lt (length_of_skipBlanks hopen))
        rw [heq]
        refine outcome_readList hopen ?_
        rw [hstep]
        exact readElements_behind hvalues within

/-- A member of an object begins with its key, and its value is read behind the key. -/
theorem Takes.member (h : Takes read written value) (name : String) (rest : List UInt8) :
    ∃ key behind, encode (writeText name ++ ':' :: written) ++ rest = byte '"' :: key ∧
      outcome readText key = .ok (name, behind) ∧
      outcome (readMember read) behind = .ok (value, rest) := by
  obtain ⟨key, hkey, hname⟩ := encode_writeText name (byte ':' :: (encode written ++ rest))
  refine ⟨key, _, ?_, hname,
    outcome_readMember (skipBlanks_visible (by decide) _) (h.taken rest)⟩
  rw [← hkey, encode_append, encode_cons, List.append_assoc, List.append_assoc]
  rfl

theorem encode_writeRecord (first second : String) (a d : List Char) (rest : List UInt8) :
    encode (writeRecord first a second d) ++ rest =
      byte '{' :: (encode (writeText first ++ ':' :: a) ++
        byte ',' :: (encode (writeText second ++ ':' :: d) ++ byte '}' :: rest)) := by
  simp only [writeRecord, List.cons_append, encode_cons, encode_append, List.append_assoc]
  rfl

theorem takes_record {a d : List Char} {x : α} {y : β} (hne : shape.second ≠ shape.first)
    (hx : Takes shape.readFirst a x) (hy : Takes shape.readSecond d y) :
    Takes (readRecord shape) (writeRecord shape.first a shape.second d) (x, y) where
  visible := ⟨byte '{', _, rfl, by decide, by decide⟩
  taken rest := by
    obtain ⟨secondKey, _, hsecond, hsecondName, hsecondValue⟩ :=
      hy.member shape.second (byte '}' :: rest)
    obtain ⟨firstKey, _, hfirst, hfirstName, hfirstValue⟩ :=
      hx.member shape.first (byte ',' :: byte '"' :: secondKey)
    rw [encode_writeRecord, hsecond, hfirst]
    have hopen := skipBlanks_visible (b := byte '{') (by decide) (byte '"' :: firstKey)
    refine outcome_readRecord hopen ?_
    obtain ⟨within, hstep⟩ := readMembers_first none (skipBlanks_visible (by decide) firstKey)
      (by decide) (keyBehind_first firstKey) hfirstName hfirstValue
      (Nat.le_of_lt (length_of_skipBlanks hopen))
    obtain ⟨within', hstep'⟩ := readMembers_second (some x) (skipBlanks_visible (by decide) _)
      (by decide) (keyBehind_next (skipBlanks_visible (by decide) secondKey)) hne hsecondName
      hsecondValue within
    rw [hstep, hstep']
    exact readMembers_end (skipBlanks_visible (by decide) rest) within'

/-! ## Grammars -/

theorem takes_symbol (s : Symbol) : Takes readSymbol (writeSymbol s) s := by
  have hrecord : Takes (readRecord symbolShape) (writeSymbol s) (s.text, s.isTerminal) :=
    takes_record (by decide) (takes_string s.text) (takes_flag s.isTerminal)
  exact hrecord.map (Symbol.ofText_text_isTerminal s)

theorem takes_production (p : Production) : Takes readProduction (writeProduction p) p := by
  have hrecord : Takes (readRecord productionShape) (writeProduction p) (p.lhs, p.rhs) :=
    takes_record (by decide) (takes_string p.lhs) (takes_list fun s _ => takes_symbol s)
  exact hrecord.map rfl

/-- The index is built again, and is that of the productions. -/
theorem ofProductions_start_productions (g : Grammar) :
    Grammar.ofProductions g.start g.productions = g := by
  obtain ⟨start, productions, index, rfl⟩ := g
  rfl

theorem takes_grammar (g : Grammar) : Takes readGrammar (writeGrammar g) g := by
  have hrecord : Takes (readRecord grammarShape) (writeGrammar g) (g.start, g.productions) :=
    takes_record (by decide) (takes_string g.start) (takes_list fun p _ => takes_production p)
  exact hrecord.map (ofProductions_start_productions g)

/-- The document of a grammar is read as that grammar, whatever its names and texts
are. -/
theorem parse_document (g : Grammar) (file : String) : parse (document g) file = .ok g := by
  have hgrammar := (takes_grammar g).taken []
  rw [List.append_nil, outcome_eq_ok_iff] at hgrammar
  obtain ⟨_, hread⟩ := hgrammar
  have hdocument : readDocument (encode (writeGrammar g)) = .ok g := by
    simp only [readDocument, hread]
    rfl
  simp only [parse, readDocumentText, readBytes, document, String.toList_ofList, hdocument]

end SentenceGuide.Json
