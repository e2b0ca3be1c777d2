import Mathlib.Order.Bounds.Defs
import SentenceGuide.Proofs.Rendering

/-!
# Words are as long as they can be

A word is read in passes.  Each takes a run of plain characters, and all but the last
take the dash behind it too, so there is one pass more than the word has dashes
(`wordRun_readName`).  The word ends at the first position of the text where it has to,
whatever the text starts with, and at the end of the text if there is no such position
(`endsWord_cutWord`).

So a word is empty just if it is read where it has to end at once.  The tokens of a line
are read without coming to that, for a word is read only where no white space and no
other token starts.  To speak of the texts at which this is done, the reader is run in a
form that notes them (`tokensNoting`) and gives the same tokens.
-/

namespace SentenceGuide.Bnf

open Text (isBlank)

/-- At this position of a text a word ends: a delimiter stands there, or `->` begins. -/
def EndsWord (text : List Char) (p : Nat) : Prop :=
  (∃ c, text[p]? = some c ∧ (isBlank c = true ∨ c = '=' ∨ c = '|' ∨ c = '"')) ∨
    ['-', '>'] <+: text.drop p

/-- A number of passes over a word, and what has been read when the last of them ends
it. -/
inductive WordRun : List Char × List Char → Nat → List Char × List Char → Prop where
  /-- The only pass ends the word. -/
  | last {read ended : List Char × List Char} :
      wordPass read = .done ended → WordRun read 1 ended
  /-- More passes follow the first one. -/
  | next {read read' ended : List Char × List Char} {passes : Nat} :
      wordPass read = .yield read' → WordRun read' passes ended → WordRun read (passes + 1) ended

variable {c : Char} {cs rest line text : List Char} {p : Nat}
  {read read' : List Char × List Char}

/-! ## The passes of a word -/

theorem count_dash_of_plain (h : ∀ c ∈ cs, isPlain c = true) : cs.count '-' = 0 :=
  List.count_eq_zero.mpr fun hmem => absurd (h _ hmem) (by decide)

theorem count_of_wordPass_done (h : wordPass read = .done read') :
    read'.1.count '-' = read.1.count '-' := by
  obtain ⟨run, hrun, -, hname, -⟩ := wordPass_done h
  rw [hname, List.count_append, count_dash_of_plain hrun, Nat.add_zero]

theorem count_of_wordPass_yield (h : wordPass read = .yield read') :
    read'.1.count '-' = read.1.count '-' + 1 := by
  obtain ⟨run, hrun, -, -, hname⟩ := wordPass_yield h
  rw [hname, List.count_append, List.count_append, count_dash_of_plain hrun, Nat.add_zero,
    List.count_singleton_self]

/-- From wherever the passes begin, one of them ends the word.  There is one of them for
each dash that they take, and the last one. -/
theorem wordRun_readName (read : List Char × List Char) :
    ∃ passes, WordRun read passes (readName read) ∧
      (readName read).1.count '-' + 1 = read.1.count '-' + passes := by
  fun_induction readName read with
  | case1 read read' hpass =>
      exact ⟨1, .last hpass, by rw [count_of_wordPass_done hpass]⟩
  | case2 read read' hpass _ ih =>
      obtain ⟨passes, hrun, hcount⟩ := ih
      refine ⟨passes + 1, .next hpass hrun, ?_⟩
      rw [hcount, count_of_wordPass_yield hpass, Nat.add_right_comm, Nat.add_assoc]

/-! ## Where a word ends -/

theorem arrow_prefix_iff : ['-', '>'] <+: c :: cs ↔ atArrow (c :: cs) = true := by
  rw [atArrow_iff, List.cons_prefix_cons, eq_comm]
  refine and_congr_right fun _ => ?_
  cases cs with
  | nil => simp
  | cons d cs => simp [eq_comm]

theorem endsWord_iff : EndsWord text p ↔ text.drop p ≠ [] ∧ Stops (text.drop p) := by
  rw [EndsWord, ← List.head?_drop]
  cases text.drop p with
  | nil => simp
  | cons c cs =>
      rw [arrow_prefix_iff, Stops]
      simp [isDelimiter, or_assoc]

/-- No word ends before its end. -/
theorem not_stops_drop (h : p < (cutWord cs).1.length) : ¬ Stops (cs.drop p) := by
  obtain ⟨hplain, harrow, hstops⟩ := cutWord_spec cs
  -- What is left of the word is a word, and it stands before what stops it.
  have hname : IsName ((cutWord cs).1.drop p) :=
    { ne_nil := by simpa using h
      plain := fun d hd => isDelimiter_eq_false_iff.mp (hplain d (List.mem_of_mem_drop hd))
      no_arrow := fun hin => harrow (hin.trans (List.drop_suffix p _).isInfix) }
  have hdrop : cs.drop p = (cutWord cs).1.drop p ++ (cutWord cs).2 := by
    rw [← List.drop_append_of_le_length h.le, cutWord_append]
  rw [hdrop]
  exact hname.not_stops hstops

theorem length_le_of_endsWord (h : EndsWord cs p) : (cutWord cs).1.length ≤ p := by
  by_contra hlt
  exact not_stops_drop (Nat.lt_of_not_le hlt) (endsWord_iff.mp h).2

theorem drop_length_cutWord (cs : List Char) :
    cs.drop (cutWord cs).1.length = (cutWord cs).2 := by
  rw [← congrArg (List.drop _) (cutWord_append cs), List.drop_left]

theorem endsWord_cutWord (cs : List Char) :
    IsLeast {p | EndsWord cs p} (cutWord cs).1.length ∨
      (∀ p, ¬ EndsWord cs p) ∧ (cutWord cs).1.length = cs.length := by
  by_cases hrest : (cutWord cs).2 = []
  · have hall : (cutWord cs).1.length = cs.length := by
      rw [← congrArg List.length (cutWord_append cs), hrest, List.append_nil]
    refine .inr ⟨fun p hp => ?_, hall⟩
    exact (endsWord_iff.mp hp).1 (List.drop_eq_nil_of_le (hall ▸ length_le_of_endsWord hp))
  · refine .inl ⟨?_, fun p hp => length_le_of_endsWord hp⟩
    rw [Set.mem_ofPred_eq, endsWord_iff, drop_length_cutWord]
    exact ⟨hrest, (cutWord_spec cs).2.2⟩

/-! ## Where a line has its words read -/

/-- The tokens of a line, and the texts at which a word was read for them. -/
structure Noted where
  /-- The tokens, or none if a quote is not closed. -/
  tokens : Option (List Token)
  /-- What was left of the line each time, first to last. -/
  calls : List (List Char)

namespace Noted

/-- One more token in front. -/
def behind (noted : Noted) (t : Token) : Noted := ⟨noted.tokens.map (t :: ·), noted.calls⟩

/-- One more word in front, read at that text. -/
def called (noted : Noted) (call : List Char) : Noted :=
  ⟨noted.tokens.map ((readWord call).1 :: ·), call :: noted.calls⟩

/-- The words among the tokens are those that were read. -/
def Exact (noted : Noted) : Prop :=
  ∀ ts, noted.tokens = some ts →
    noted.calls.map (fun call => (readWord call).1) = ts.filter Token.isWord

/-- Words were read where the line goes on and no word ends. -/
def Within (noted : Noted) (line : List Char) : Prop :=
  ∀ call ∈ noted.calls, call <:+ line ∧ ¬ Stops call

end Noted

theorem length_lt_cons (c : Char) (cs : List Char) : cs.length < (c :: cs).length :=
  Nat.lt_succ_self cs.length

theorem length_drop_lt_cons (c : Char) (cs : List Char) :
    (cs.drop 1).length < (c :: cs).length :=
  Nat.lt_of_le_of_lt (List.drop_sublist 1 cs).length_le (length_lt_cons c cs)

/-- Where white space, a bar, a quote and both arrows have been ruled out, a word takes
something. -/
theorem length_call_lt (hblank : ¬ isBlank c = true) (hequals : ¬ c = '=')
    (harrow : ¬ atArrow (c :: cs) = true) (hbar : ¬ c = '|') (hquote : ¬ c = '"') :
    (readWord (c :: cs)).2.length < (c :: cs).length :=
  length_readWord_lt
    (isDelimiter_eq_false_iff.mpr ⟨Bool.not_eq_true _ ▸ hblank, hequals, hbar, hquote⟩)
    (Bool.not_eq_true _ ▸ harrow)

/-- Reads the tokens of a line and notes where it reads a word. -/
def tokensNoting (cs : List Char) : Noted :=
  match cs with
  | [] => ⟨some [], []⟩
  | c :: rest =>
      if isBlank c then tokensNoting rest
      else if c = '=' then (tokensNoting rest).behind .arrow
      else if atArrow (c :: rest) then (tokensNoting (rest.drop 1)).behind .arrow
      else if c = '|' then (tokensNoting rest).behind .bar
      else if c = '"' then
        match h : readQuoted (c :: rest) with
        | none => ⟨none, []⟩
        | some (t, rest') =>
            have := length_readQuoted_lt h
            (tokensNoting rest').behind t
      else (tokensNoting (readWord (c :: rest)).2).called (c :: rest)
termination_by cs.length
decreasing_by
  · exact length_lt_cons c rest
  · exact length_lt_cons c rest
  · exact length_drop_lt_cons c rest
  · exact length_lt_cons c rest
  · exact this
  · next hblank hequals harrow hbar hquote =>
      exact length_call_lt hblank hequals harrow hbar hquote

/-- Noting changes no tokens. -/
theorem tokens_tokensNoting (line : List Char) : (tokensNoting line).tokens = tokens line := by
  fun_induction tokensNoting line with
  | case1 => rw [tokens_nil]
  | case2 c rest hblank ih => rw [tokens_blank hblank, ih]
  | case3 rest _ ih => rw [tokens_equals, ← ih, Noted.behind]
  | case4 c rest hblank hequals harrow ih =>
      rw [tokens_cons, if_neg hblank, if_neg hequals, if_pos harrow, ← ih, Noted.behind]
  | case5 rest _ _ _ ih => rw [tokens_bar, ← ih, Noted.behind]
  | case6 rest _ _ _ _ hread => rw [tokens_quote, hread, Option.bind_none]
  | case7 rest t rest' _ _ _ _ hread _ ih =>
      rw [tokens_quote, hread, Option.bind_some, Noted.behind, ih]
  | case8 c rest hblank hequals harrow hbar hquote ih =>
      rw [tokens_cons, if_neg hblank, if_neg hequals, if_neg harrow, if_neg hbar, if_neg hquote,
        ← ih, Noted.called]

theorem Noted.Exact.behind {noted : Noted} {t : Token} (h : noted.Exact)
    (ht : t.isWord = false) : (noted.behind t).Exact := by
  intro ts hts
  obtain ⟨us, hus, rfl⟩ := Option.map_eq_some_iff.mp hts
  rw [List.filter_cons_of_neg (by simp [ht])]
  exact h us hus

theorem Noted.Exact.called {noted : Noted} (h : noted.Exact) (call : List Char) :
    (noted.called call).Exact := by
  intro ts hts
  obtain ⟨us, hus, rfl⟩ := Option.map_eq_some_iff.mp hts
  rw [List.filter_cons_of_pos rfl, ← h us hus]
  rfl

theorem exact_tokensNoting (line : List Char) : (tokensNoting line).Exact := by
  fun_induction tokensNoting line with
  | case1 =>
      intro ts hts
      cases hts
      rfl
  | case2 c rest _ ih => exact ih
  | case3 rest _ ih => exact ih.behind rfl
  | case4 c rest _ _ _ ih => exact ih.behind rfl
  | case5 rest _ _ _ ih => exact ih.behind rfl
  | case6 rest _ =>
      intro ts hts
      cases hts
  | case7 rest t rest' _ _ _ _ hread _ ih =>
      obtain ⟨text, -, -, rfl⟩ := readQuoted_eq_some hread
      exact ih.behind rfl
  | case8 c rest _ _ _ _ _ ih => exact ih.called (c :: rest)

theorem Noted.Within.mono {noted : Noted} (h : noted.Within rest) (hrest : rest <:+ line) :
    noted.Within line :=
  fun call hcall => ⟨(h call hcall).1.trans hrest, (h call hcall).2⟩

theorem within_tokensNoting (line : List Char) : (tokensNoting line).Within line := by
  fun_induction tokensNoting line with
  | case1 => exact fun call hcall => absurd hcall List.not_mem_nil
  | case2 c rest _ ih => exact ih.mono (List.suffix_cons c rest)
  | case3 rest _ ih => exact ih.mono (List.suffix_cons '=' rest)
  | case4 c rest _ _ _ ih =>
      exact ih.mono ((List.drop_suffix 1 rest).trans (List.suffix_cons c rest))
  | case5 rest _ _ _ ih => exact ih.mono (List.suffix_cons '|' rest)
  | case6 rest _ => exact fun call hcall => absurd hcall List.not_mem_nil
  | case7 rest t rest' _ _ _ _ hread _ ih =>
      obtain ⟨text, rfl, -, -⟩ := readQuoted_eq_some hread
      exact ih.mono ⟨'"' :: (text ++ ['"']), by simp⟩
  | case8 c rest hblank hequals harrow hbar hquote ih =>
      intro call hcall
      rcases List.mem_cons.mp hcall with rfl | hcall
      · refine ⟨List.suffix_rfl, ?_⟩
        rw [Stops, not_or, Bool.not_eq_true, isDelimiter_eq_false_iff]
        exact ⟨⟨Bool.not_eq_true _ ▸ hblank, hequals, hbar, hquote⟩, harrow⟩
      · have hleft : (readWord (c :: rest)).2 <:+ c :: rest := by
          rw [readWord_eq]
          exact ⟨_, cutWord_append (c :: rest)⟩
        exact ih.mono hleft call hcall

/-- A word takes something just if it is not read where a word ends. -/
theorem length_readWord_lt_iff : (readWord text).2.length < text.length ↔ ¬ Stops text := by
  cases text with
  | nil => simp [Stops, readWord_eq, cutWord]
  | cons c cs =>
      constructor
      · intro hlt hstops
        rw [readWord_eq, cutWord, if_pos (by simpa [Stops] using hstops)] at hlt
        exact Nat.lt_irrefl _ hlt
      · intro hgoes
        rw [Stops, not_or, Bool.not_eq_true, Bool.not_eq_true] at hgoes
        exact length_readWord_lt hgoes.1 hgoes.2

/-- A word is the longest one that the text starts with, read in one pass for each of its
dashes and one more.  The tokens of a line have their words read where none ends, and so
each time something is read. -/
theorem readWord_maximalMunch (text : List Char) :
    (∃ name rest, readWord text = (.word (String.ofList name), rest) ∧
      WordRun ([], text) (name.count '-' + 1) (name, rest) ∧ name ++ rest = text ∧
      (IsLeast {p | EndsWord text p} name.length ∨
        (∀ p, ¬ EndsWord text p) ∧ name.length = text.length)) ∧
    (tokensNoting text).tokens = tokens text ∧
    (∀ ts, tokens text = some ts →
      (tokensNoting text).calls.map (fun call => (readWord call).1) = ts.filter Token.isWord) ∧
    ∀ call ∈ (tokensNoting text).calls, ∃ p < text.length, call = text.drop p ∧
      ¬ EndsWord text p ∧ (readWord call).2.length < call.length := by
  refine ⟨?_, tokens_tokensNoting text, ?_, ?_⟩
  · obtain ⟨passes, hrun, hcount⟩ := wordRun_readName ([], text)
    rw [List.count_nil, Nat.zero_add] at hcount
    rw [← hcount, readName_eq, List.nil_append] at hrun
    exact ⟨(cutWord text).1, (cutWord text).2, readWord_eq text, hrun, cutWord_append text,
      endsWord_cutWord text⟩
  · rw [← tokens_tokensNoting]
    exact exact_tokensNoting text
  · intro call hcall
    obtain ⟨⟨front, rfl⟩, hgoes⟩ := within_tokensNoting text call hcall
    have hdrop : call = (front ++ call).drop front.length := List.drop_left.symm
    refine ⟨front.length, ?_, hdrop, ?_, length_readWord_lt_iff.mpr hgoes⟩
    · have hne : call ≠ [] := by
        rintro rfl
        exact hgoes trivial
      rw [List.length_append]
      exact Nat.lt_add_of_pos_right (List.length_pos_iff.mpr hne)
    · rw [endsWord_iff, ← hdrop]
      exact fun h => hgoes h.2

/-- The second word of this line is a lone dash, which a quote ends. -/
theorem readWord_maximalMunch_dashes :
    tokens ['A', '-', '-', '>', '-', '"', 'q', '"'] =
      some [.word "A-", .arrow, .word "-", .quoted "q"] ∧
    ['-', '"', 'q', '"'] ∈ (tokensNoting ['A', '-', '-', '>', '-', '"', 'q', '"']).calls ∧
    (tokensNoting ['A', '-', '-', '>', '-', '"', 'q', '"']).calls.map
      (fun call => (readWord call).1) = [.word "A-", .word "-"] ∧
    (readWord ['-', '"', 'q', '"']).2.length < ['-', '"', 'q', '"'].length := by
  have htokens : tokens ['A', '-', '-', '>', '-', '"', 'q', '"'] =
      some [.word "A-", .arrow, .word "-", .quoted "q"] := by decide +kernel
  have hcall : ['-', '"', 'q', '"'] ∈
      (tokensNoting ['A', '-', '-', '>', '-', '"', 'q', '"']).calls := by decide +kernel
  obtain ⟨-, -, hwords, hcalls⟩ :=
    readWord_maximalMunch ['A', '-', '-', '>', '-', '"', 'q', '"']
  obtain ⟨_, -, -, -, hlength⟩ := hcalls _ hcall
  exact ⟨htokens, hcall, hwords _ htokens, hlength⟩

end SentenceGuide.Bnf
