import SentenceGuide.Text.Blank

/-!
# Tokens of a rule

A line of a rule text is a string of tokens.  An arrow is `=` or `->`.  A bar
is `|`.  A quoted text stands between double quotes, with no way to write a
quote inside it.  A word is a name without quotes.  White space may stand
between tokens and is needed only between two words.

A word ends before white space, `=`, `|`, a double quote, and before `->`.  A
dash that no `>` follows is part of the word, so `TWO-DIGIT` is one word and
`A-->B` is the word `A-`, an arrow and the word `B`.

A word is read in passes.  A pass takes all up to the next delimiter or dash, and only
at a dash does it have to look two characters ahead.  The word that comes out of the
passes is the one that a look ahead at every character gives (`readWord_eq`).

The only fault is a quote that is never closed.
-/

namespace SentenceGuide.Bnf

open Text (isBlank)

/-- What a rule is written with. -/
inductive Token where
  /-- `=` or `->`. -/
  | arrow
  /-- `|`. -/
  | bar
  /-- A name without quotes. -/
  | word (name : String)
  /-- A text between quotes, without them. -/
  | quoted (text : String)
  deriving DecidableEq, Repr

/-- A character that ends a word and is no part of it. -/
def isDelimiter (c : Char) : Bool := isBlank c || c == '=' || c == '|' || c == '"'

/-- Whether `->` starts here. -/
def atArrow : List Char → Bool
  | '-' :: '>' :: _ => true
  | _ => false

/-- Cuts a text at the first place where a delimiter stands or an arrow starts.  This is
what reading a word comes to (`readWord_eq`). -/
def cutWord : List Char → List Char × List Char
  | [] => ([], [])
  | c :: cs =>
      if isDelimiter c || atArrow (c :: cs) then ([], c :: cs)
      else ((c :: (cutWord cs).1), (cutWord cs).2)

/-- A character that a word takes without a look at what is behind it. -/
def isPlain (c : Char) : Bool := !isDelimiter c && c != '-'

/-- One pass over a word, from the name so far and the text that is left.  The name
takes all before the next delimiter or dash, and there the word ends.  But a dash that
starts no arrow is taken too, and another pass follows. -/
def wordPass : List Char × List Char → ForInStep (List Char × List Char)
  | (name, cs) =>
      let longer := name ++ cs.takeWhile isPlain
      let rest := cs.dropWhile isPlain
      if rest.head? ≠ some '-' ∨ atArrow rest = true then .done (longer, rest)
      else .yield (longer ++ rest.take 1, rest.drop 1)

/-- Cuts a text at the first double quote, which goes.  There is none to cut at
if the text holds no quote. -/
def cutQuote : List Char → Option (List Char × List Char)
  | [] => none
  | c :: cs => if c = '"' then some ([], cs) else (cutQuote cs).map fun (t, r) => (c :: t, r)

/-- Reads a quoted text whose opening quote is the first character, whatever
that is, and leaves the rest. -/
def readQuoted (cs : List Char) : Option (Token × List Char) :=
  (cutQuote (cs.drop 1)).map fun (t, r) => (.quoted (String.ofList t), r)

/-! ## Reading a word pass by pass -/

variable {c : Char} {cs run : List Char} {read read' : List Char × List Char}

theorem isPlain_takeWhile (cs : List Char) : ∀ c ∈ cs.takeWhile isPlain, isPlain c = true :=
  List.all_eq_true.mp List.all_takeWhile

/-- The last pass takes a run of plain characters, behind which a word cannot go on. -/
theorem wordPass_done (h : wordPass read = .done read') :
    ∃ run, (∀ c ∈ run, isPlain c = true) ∧ read.2 = run ++ read'.2 ∧ read'.1 = read.1 ++ run ∧
      cutWord read'.2 = ([], read'.2) := by
  obtain ⟨name, cs⟩ := read
  simp only [wordPass] at h
  split at h
  · next hstop =>
      cases h
      refine ⟨cs.takeWhile isPlain, isPlain_takeWhile cs,
        List.takeWhile_append_dropWhile.symm, rfl, ?_⟩
      have hhead := List.head?_dropWhile_not isPlain cs
      cases hrest : cs.dropWhile isPlain with
      | nil => rfl
      | cons c rest =>
          rw [hrest] at hhead hstop
          -- What stops a run and is no dash can only be a delimiter.
          have hend : isDelimiter c = true ∨ atArrow (c :: rest) = true := by
            by_cases hdash : c = '-'
            · exact .inr (hstop.resolve_left fun hne => hne (congrArg some hdash))
            · exact .inl (by simpa [isPlain, hdash] using hhead)
          rw [cutWord, if_pos (by simpa using hend)]
  · cases h

/-- Any other pass takes such a run and a dash that starts no arrow. -/
theorem wordPass_yield (h : wordPass read = .yield read') :
    ∃ run, (∀ c ∈ run, isPlain c = true) ∧ read.2 = run ++ '-' :: read'.2 ∧
      atArrow ('-' :: read'.2) = false ∧ read'.1 = read.1 ++ run ++ ['-'] := by
  obtain ⟨name, cs⟩ := read
  simp only [wordPass] at h
  split at h
  · cases h
  · next hgoes =>
      cases h
      obtain ⟨hhead, harrow⟩ : (cs.dropWhile isPlain).head? = some '-' ∧
          atArrow (cs.dropWhile isPlain) = false := by simpa using hgoes
      obtain ⟨more, hmore⟩ := List.head?_eq_some_iff.mp hhead
      refine ⟨cs.takeWhile isPlain, isPlain_takeWhile cs, ?_, ?_, ?_⟩
      · rw [hmore, List.drop_one, List.tail_cons, ← hmore, List.takeWhile_append_dropWhile]
      · rw [hmore] at harrow ⊢
        exact harrow
      · rw [hmore, List.take_one, List.head?_cons, Option.toList_some]

theorem length_of_wordPass (h : wordPass read = .yield read') :
    read'.2.length < read.2.length := by
  obtain ⟨run, -, hcs, -, -⟩ := wordPass_yield h
  rw [hcs, List.length_append, List.length_cons]
  omega

/-- Makes passes over a word until one of them ends it. -/
def readName (read : List Char × List Char) : List Char × List Char :=
  match h : wordPass read with
  | .done read' => read'
  | .yield read' =>
      have := length_of_wordPass h
      readName read'
termination_by read.2.length

/-- Reads a word off the front of a text, and leaves the rest. -/
def readWord (cs : List Char) : Token × List Char :=
  (.word (String.ofList (readName ([], cs)).1), (readName ([], cs)).2)

theorem atArrow_of_ne (h : c ≠ '-') : atArrow (c :: cs) = false := by
  cases cs <;> simp [atArrow, h]

theorem cutWord_plain_append (h : ∀ c ∈ run, isPlain c = true) (rest : List Char) :
    cutWord (run ++ rest) = (run ++ (cutWord rest).1, (cutWord rest).2) := by
  induction run with
  | nil => rfl
  | cons c run ih =>
      obtain ⟨hc, hrun⟩ := List.forall_mem_cons.mp h
      obtain ⟨hdelimiter, hdash⟩ : isDelimiter c = false ∧ c ≠ '-' := by simpa [isPlain] using hc
      rw [List.cons_append, cutWord, hdelimiter, atArrow_of_ne hdash, ih hrun]
      rfl

theorem cutWord_dash (h : atArrow ('-' :: cs) = false) :
    cutWord ('-' :: cs) = ('-' :: (cutWord cs).1, (cutWord cs).2) := by
  rw [cutWord, h]
  rfl

/-- Pass by pass or one character after the other, it is the same word. -/
theorem readName_eq (read : List Char × List Char) :
    readName read = (read.1 ++ (cutWord read.2).1, (cutWord read.2).2) := by
  fun_induction readName read with
  | case1 read read' hpass =>
      obtain ⟨run, hrun, hcs, hname, hstop⟩ := wordPass_done hpass
      rw [hcs, cutWord_plain_append hrun, hstop, List.append_nil, ← hname]
  | case2 read read' hpass _ ih =>
      obtain ⟨run, hrun, hcs, harrow, hname⟩ := wordPass_yield hpass
      rw [ih, hcs, cutWord_plain_append hrun, cutWord_dash harrow, hname, List.append_assoc,
        List.append_assoc, List.singleton_append]

theorem readWord_eq (cs : List Char) :
    readWord cs = (.word (String.ofList (cutWord cs).1), (cutWord cs).2) := by
  rw [readWord, readName_eq, List.nil_append]

/-! ## Cutting loses nothing and takes something -/

theorem cutWord_append (cs : List Char) : (cutWord cs).1 ++ (cutWord cs).2 = cs := by
  induction cs with
  | nil => rfl
  | cons c cs ih =>
      simp only [cutWord]
      split
      · rfl
      · simp [ih]

theorem length_cutWord_le (cs : List Char) : (cutWord cs).2.length ≤ cs.length := by
  have := congrArg List.length (cutWord_append cs)
  simp only [List.length_append] at this
  omega

theorem cutQuote_eq_some {cs text rest : List Char} (h : cutQuote cs = some (text, rest)) :
    cs = text ++ '"' :: rest ∧ '"' ∉ text := by
  induction cs generalizing text with
  | nil => cases h
  | cons c cs ih =>
      simp only [cutQuote] at h
      split at h
      · next hc => cases h; exact ⟨by simp [hc], by simp⟩
      · next hc =>
          obtain ⟨⟨t, r⟩, ht, he⟩ := Option.map_eq_some_iff.1 h
          cases he
          obtain ⟨rfl, hn⟩ := ih ht
          exact ⟨rfl, by simpa [eq_comm (a := '"'), hc] using hn⟩

theorem readQuoted_eq_some {c : Char} {cs rest : List Char} {t : Token}
    (h : readQuoted (c :: cs) = some (t, rest)) :
    ∃ text, cs = text ++ '"' :: rest ∧ '"' ∉ text ∧ t = .quoted (String.ofList text) := by
  obtain ⟨⟨text, rest⟩, hcut, heq⟩ := Option.map_eq_some_iff.1 h
  cases heq
  obtain ⟨hcs, htext⟩ := cutQuote_eq_some hcut
  exact ⟨text, hcs, htext, rfl⟩

theorem length_readQuoted_lt {c : Char} {cs rest : List Char} {t : Token}
    (h : readQuoted (c :: cs) = some (t, rest)) : rest.length < (c :: cs).length := by
  obtain ⟨text, rfl, -, -⟩ := readQuoted_eq_some h
  simp only [List.length_append, List.length_cons]
  omega

/-- Off a delimiter and an arrow, a word takes at least one character. -/
theorem length_readWord_lt {c : Char} {cs : List Char} (hd : isDelimiter c = false)
    (ha : atArrow (c :: cs) = false) : (readWord (c :: cs)).2.length < (c :: cs).length := by
  simp only [readWord_eq, cutWord, hd, ha, Bool.or_self, Bool.false_eq_true, if_false,
    List.length_cons]
  exact Nat.lt_succ_of_le (length_cutWord_le cs)

/-! ## Lines -/

/-- The tokens of a line, or none if a quote is not closed. -/
def tokens (cs : List Char) : Option (List Token) :=
  match cs with
  | [] => some []
  | c :: rest =>
      if isBlank c then tokens rest
      else if c = '=' then (tokens rest).map (.arrow :: ·)
      else if atArrow (c :: rest) then (tokens (rest.drop 1)).map (.arrow :: ·)
      else if c = '|' then (tokens rest).map (.bar :: ·)
      else if c = '"' then
        match h : readQuoted (c :: rest) with
        | none => none
        | some (t, rest') =>
            have := length_readQuoted_lt h
            (tokens rest').map (t :: ·)
      else (tokens (readWord (c :: rest)).2).map ((readWord (c :: rest)).1 :: ·)
termination_by cs.length
decreasing_by
  · simp
  · simp
  · simp only [List.length_drop, List.length_cons]; omega
  · simp
  · exact this
  · exact length_readWord_lt (by simp_all [isDelimiter]) (by simp_all)

/-! ## Tests -/

example : tokens ['A', '-', '-', '>', 'B'] = some [.word "A-", .arrow, .word "B"] := by
  decide +kernel

example : tokens ['-', ' ', '>', '|', '"', '=', '"', '='] =
    some [.word "-", .word ">", .bar, .quoted "=", .arrow] := by decide +kernel

example : tokens ['a', '"', 'b'] = none := by decide +kernel

end SentenceGuide.Bnf
