import SentenceGuide.Proofs.DocumentReaders
import SentenceGuide.Proofs.SkippedNumbers

/-!
# Values that are skipped

A value is a word, a number, a text, or what stands between two brackets.  There it has
items, which are values or members and have a comma between any two of them.  Blanks
may stand anywhere between those parts (`Form`).

The walk over a value keeps the brackets that are open.  It passes over what its phase
and those brackets demand (`demands_of_skipFrom`), and it passes over all that is
well formed (`Form.passed`).  Only a number does not show its own end, so what stands
behind it must not go on with it (`Ends`).
-/

namespace SentenceGuide.Json

variable {bytes rest more gap core : List UInt8} {b : UInt8} {bound : Nat}

/-! ## The form of a value -/

/-- The byte that opens a bracket. -/
def Bracket.opener : Bracket → UInt8
  | list => byte '['
  | object => byte '{'

/-- The words that are values. -/
def words : List (List Char) :=
  [['n', 'u', 'l', 'l'], ['t', 'r', 'u', 'e'], ['f', 'a', 'l', 's', 'e']]

/-- The parts of a value that have parts of the same sorts. -/
inductive Part where
  /-- A value. -/
  | value
  /-- An item of a bracket: an element of a list, or a member of an object. -/
  | item (bracket : Bracket)
  /-- The items of a bracket, if it has any. -/
  | items (bracket : Bracket)
  /-- What may follow an item of a bracket: further items, with commas before them. -/
  | following (bracket : Bracket)

/-- What is well formed as a part of a value. -/
inductive Form : Part → List UInt8 → Prop where
  | word {word : List Char} : word ∈ words → Form .value (word.map byte)
  | number {number : List UInt8} : NumberForm number → Form .value number
  | negative {number : List UInt8} : NumberForm number → Form .value (byte '-' :: number)
  | text {form : List UInt8} : TextForm form → Form .value (byte '"' :: (form ++ [byte '"']))
  | bracket {bracket : Bracket} {inside : List UInt8} : Form (.items bracket) inside →
      Form .value (bracket.opener :: (inside ++ [bracket.closer]))
  | element {core : List UInt8} : Form .value core → Form (.item .list) core
  | member {key before behind core : List UInt8} : TextForm key → Blanks before →
      Blanks behind → Form .value core →
      Form (.item .object)
        (byte '"' :: (key ++ byte '"' :: (before ++ byte ':' :: (behind ++ core))))
  | empty {bracket : Bracket} {gap : List UInt8} : Blanks gap → Form (.items bracket) gap
  | first {bracket : Bracket} {gap core more : List UInt8} : Blanks gap →
      Form (.item bracket) core → Form (.following bracket) more →
      Form (.items bracket) (gap ++ (core ++ more))
  | last {bracket : Bracket} {gap : List UInt8} : Blanks gap → Form (.following bracket) gap
  | next {bracket : Bracket} {before behind core more : List UInt8} : Blanks before →
      Blanks behind → Form (.item bracket) core → Form (.following bracket) more →
      Form (.following bracket) (before ++ byte ',' :: (behind ++ (core ++ more)))

/-! ## What is skipped is a value -/

theorem eq_append_of_readWord {word : List Char} (h : readWord word bytes = .ok rest) :
    bytes = word.map byte ++ rest := by
  induction word generalizing bytes with
  | nil =>
      cases h
      rfl
  | cons c word ih =>
      cases bytes with
      | nil => cases h
      | cons b bytes =>
          rw [readWord] at h
          split at h
          · next hb => rw [hb, ih h, List.map_cons, List.cons_append]
          · cases h

theorem readWord_append (word : List Char) (rest : List UInt8) :
    readWord word (word.map byte ++ rest) = .ok rest := by
  induction word with
  | nil => rfl
  | cons c word ih => rw [List.map_cons, List.cons_append, readWord, if_pos rfl, ih]

/-- Skips the rest of a word. -/
def skipWord (word : List Char) (bytes : List UInt8) :
    Except Fault (Reading Unit (bytes.length + 1)) :=
  match h : readWord word bytes with
  | .error fault => .error fault
  | .ok more => .ok ⟨(), more, Nat.lt_succ_of_le (length_of_readWord h)⟩

theorem readWord_of_skipWord {word : List Char} {r : Reading Unit (bytes.length + 1)}
    (h : skipWord word bytes = .ok r) : readWord word bytes = .ok r.rest := by
  rw [skipWord] at h
  split at h
  · cases h
  · next hread =>
      cases h
      exact hread

theorem skipWord_of_readWord {word : List Char} (h : readWord word bytes = .ok rest) :
    ∃ hlt, skipWord word bytes = .ok ⟨(), rest, hlt⟩ := by
  refine ⟨Nat.lt_succ_of_le (length_of_readWord h), ?_⟩
  rw [skipWord]
  split
  · next hfault => cases h.symm.trans hfault
  · next hok =>
      cases h.symm.trans hok
      rfl

theorem form_of_skipScalar {r : Reading Unit (bytes.length + 1)} (h : skipScalar b bytes = .ok r) :
    ∃ core, Form .value core ∧ b :: bytes = core ++ r.rest := by
  have hword : ∀ c word, b = byte c → c :: word ∈ words → skipWord word bytes = .ok r →
      ∃ core, Form .value core ∧ b :: bytes = core ++ r.rest := by
    intro c word hb hword h
    refine ⟨_, .word hword, ?_⟩
    rw [hb]
    exact congrArg (byte c :: ·) (eq_append_of_readWord (readWord_of_skipWord h))
  rw [skipScalar] at h
  split at h
  · next hb => exact hword 'n' _ hb (by decide) h
  split at h
  · next hb => exact hword 't' _ hb (by decide) h
  split at h
  · next hb => exact hword 'f' _ hb (by decide) h
  split at h
  · next hb =>
      cases hskip : skipNumber bytes with
      | error fault =>
          rw [hskip] at h
          cases h
      | ok r =>
          rw [hskip] at h
          cases h
          obtain ⟨number, hnumber, hbytes⟩ := form_of_skipNumber (outcome_of_eq_ok hskip)
          refine ⟨_, .negative hnumber, ?_⟩
          rw [hb]
          exact congrArg (byte '-' :: ·) hbytes
  split at h
  · obtain ⟨number, hnumber, hbytes⟩ := form_of_skipNumber (outcome_of_eq_ok h)
    exact ⟨_, .number hnumber, hbytes⟩
  split at h
  · next hb =>
      cases hskip : skipText bytes with
      | error fault =>
          rw [hskip] at h
          cases h
      | ok r =>
          rw [hskip] at h
          cases h
          obtain ⟨form, hform, hbytes⟩ := outcome_skipText_iff.mp (outcome_of_eq_ok hskip)
          refine ⟨_, .text hform, ?_⟩
          rw [hb]
          simp only [List.cons_append, List.append_assoc, List.nil_append]
          exact congrArg (byte '"' :: ·) hbytes
  · cases h

theorem form_of_skipKey (h : outcome skipKey bytes = .ok ((), rest)) :
    ∃ gap key before, Blanks gap ∧ TextForm key ∧ Blanks before ∧
      bytes = gap ++ byte '"' :: (key ++ byte '"' :: (before ++ byte ':' :: rest)) := by
  obtain ⟨_, h⟩ := outcome_eq_ok_iff.mp h
  rw [skipKey] at h
  split at h
  · cases h
  next hquote =>
  split at h
  · cases h
  next hb =>
  split at h
  · cases h
  next key hkey =>
  split at h
  · cases h
  next hcolon =>
  split at h
  · cases h
  next hc =>
  cases h
  obtain ⟨gap, hgap, hbytes⟩ := blanks_of_skipBlanks hquote
  obtain ⟨form, hform, hbehind⟩ := outcome_skipText_iff.mp (outcome_of_eq_ok hkey)
  obtain ⟨before, hbefore, hrest⟩ := blanks_of_skipBlanks hcolon
  refine ⟨gap, form, before, hgap, hform, hbefore, ?_⟩
  rw [hbytes, hbehind, hrest, Decidable.not_not.mp hb, Decidable.not_not.mp hc]

/-- What open brackets demand behind an item of the innermost one. -/
inductive Closes : List Bracket → List UInt8 → List UInt8 → Prop where
  | done {rest : List UInt8} : Closes [] rest rest
  | bracket {bracket : Bracket} {brackets : List Bracket} {more bytes rest : List UInt8} :
      Form (.following bracket) more → Closes brackets bytes rest →
      Closes (bracket :: brackets) (more ++ bracket.closer :: bytes) rest

/-- What the walk demands in a phase, inside some open brackets. -/
def Demands : Phase → List Bracket → List UInt8 → List UInt8 → Prop
  | .value, brackets, bytes, rest => ∃ gap core more, Blanks gap ∧ Form .value core ∧
      Closes brackets more rest ∧ bytes = gap ++ (core ++ more)
  | .after, brackets, bytes, rest => Closes brackets bytes rest
  | .opened bracket, brackets, bytes, rest => ∃ inside more, Form (.items bracket) inside ∧
      Closes brackets more rest ∧ bytes = inside ++ bracket.closer :: more
  | .item bracket, brackets, bytes, rest => ∃ gap core more, Blanks gap ∧
      Form (.item bracket) core ∧ Closes (bracket :: brackets) more rest ∧
      bytes = gap ++ (core ++ more)

/-- What opens a bracket as a value, and what is inside it. -/
theorem demands_bracket (bracket : Bracket) {brackets : List Bracket}
    (h : skipBlanks bytes = bracket.opener :: more)
    (hmore : Demands (.opened bracket) brackets more rest) :
    Demands .value brackets bytes rest := by
  obtain ⟨gap, hgap, hbytes⟩ := blanks_of_skipBlanks h
  obtain ⟨inside, behind, hinside, hbehind, hmore⟩ := hmore
  refine ⟨gap, _, behind, hgap, .bracket hinside, hbehind, ?_⟩
  rw [hbytes, hmore]
  simp

theorem demands_of_skipFrom {phase : Phase} {brackets : List Bracket}
    {within : bytes.length + phase.taken ≤ bound} {r : Reading Unit bound}
    (h : skipFrom bound phase brackets bytes within = .ok r) :
    Demands phase brackets bytes r.rest := by
  fun_induction skipFrom bound phase brackets bytes within with
  | case1 => cases h
  | case2 brackets bytes within more _ hopen _ ih => exact demands_bracket .list hopen (ih h)
  | case3 brackets bytes within more _ hopen _ _ ih => exact demands_bracket .object hopen (ih h)
  | case4 => cases h
  | case5 brackets bytes within b more hb _ _ _ r hskip _ _ ih =>
      obtain ⟨gap, hgap, hbytes⟩ := blanks_of_skipBlanks hb
      obtain ⟨core, hcore, hmore⟩ := form_of_skipScalar hskip
      exact ⟨gap, core, _, hgap, hcore, ih h, by rw [hbytes, hmore]⟩
  | case6 =>
      cases h
      exact .done
  | case7 => cases h
  | case8 bracket outer bytes within more _ hcomma _ ih =>
      obtain ⟨before, hbefore, hbytes⟩ := blanks_of_skipBlanks hcomma
      obtain ⟨behind, core, rest, hbehind, hcore, hrest, hmore⟩ := ih h
      cases hrest with
      | @bracket _ _ following outside _ hfollowing houtside =>
          have heq : bytes = before ++ byte ',' :: (behind ++ (core ++ following)) ++
              bracket.closer :: outside := by
            rw [hbytes, hmore]
            simp
          rw [heq]
          exact .bracket (.next hbefore hbehind hcore hfollowing) houtside
  | case9 bracket outer bytes within more _ hcloser _ _ ih =>
      obtain ⟨gap, hgap, hbytes⟩ := blanks_of_skipBlanks hcloser
      rw [hbytes]
      exact .bracket (.last hgap) (ih h)
  | case10 => cases h
  | case11 => cases h
  | case12 bracket brackets bytes within more _ hcloser _ ih =>
      obtain ⟨gap, hgap, hbytes⟩ := blanks_of_skipBlanks hcloser
      exact ⟨gap, more, .empty hgap, ih h, hbytes⟩
  | case13 bracket brackets bytes within b more _ _ _ _ ih =>
      obtain ⟨gap, core, rest, hgap, hcore, hrest, hbytes⟩ := ih h
      cases hrest with
      | @bracket _ _ following outside _ hfollowing houtside =>
          refine ⟨_, outside, .first hgap hcore hfollowing, houtside, ?_⟩
          rw [hbytes]
          simp
  | case14 brackets bytes within _ ih =>
      obtain ⟨gap, core, rest, hgap, hcore, hrest, hbytes⟩ := ih h
      exact ⟨gap, core, rest, hgap, .element hcore, hrest, hbytes⟩
  | case15 => cases h
  | case16 brackets bytes within key hkey _ _ ih =>
      obtain ⟨gap, form, before, hgap, hform, hbefore, hbytes⟩ :=
        form_of_skipKey (outcome_of_eq_ok hkey)
      obtain ⟨behind, core, rest, hbehind, hcore, hrest, hmore⟩ := ih h
      refine ⟨gap, _, rest, hgap, .member hform hbefore hbehind hcore, hrest, ?_⟩
      rw [hbytes, hmore]
      simp

/-- What is skipped is a value, with blanks before it. -/
theorem form_of_skipValue (h : outcome skipValue bytes = .ok ((), rest)) :
    ∃ gap core, Blanks gap ∧ Form .value core ∧ bytes = gap ++ (core ++ rest) := by
  obtain ⟨_, h⟩ := outcome_eq_ok_iff.mp h
  obtain ⟨gap, core, more, hgap, hcore, hmore, hbytes⟩ := demands_of_skipFrom h
  cases hmore with
  | done => exact ⟨gap, core, hgap, hcore, hbytes⟩

/-! ## Values are skipped -/

theorem ne_of_isDigit {c : UInt8} (hb : isDigit b = true) (hc : isDigit c = false) : b ≠ c := by
  rintro rfl
  cases hb.symm.trans hc

theorem isBlank_of_isDigit (h : isDigit b = true) : isBlank b = false := by
  rw [Bool.eq_false_iff]
  intro hblank
  simp only [isBlank, Bool.or_eq_true, beq_iff_eq] at hblank
  rcases hblank with ((rfl | rfl) | rfl) | rfl <;> cases h

theorem NumberForm.exists_digit {number : List UInt8} (h : NumberForm number) :
    ∃ b tail, number = b :: tail ∧ isDigit b = true := by
  obtain ⟨hinteger, -, -⟩ := h
  cases hinteger with
  | zero => exact ⟨byte '0', _, rfl, rfl⟩
  | digits hb _ _ => exact ⟨_, _, rfl, hb⟩

theorem ends_blanks (h : Blanks gap) (hrest : Ends rest) : Ends (gap ++ rest) := by
  cases gap with
  | nil => exact hrest
  | cons b gap =>
      have hb := h b List.mem_cons_self
      simp only [isBlank, Bool.or_eq_true, beq_iff_eq] at hb
      rcases hb with ((rfl | rfl) | rfl) | rfl <;>
        exact ends_cons (by decide) (by decide) (by decide) _

theorem isBlank_closer (bracket : Bracket) : isBlank bracket.closer = false := by
  cases bracket <;> rfl

theorem ends_closer (bracket : Bracket) (rest : List UInt8) : Ends (bracket.closer :: rest) := by
  cases bracket <;> exact ends_cons (by decide) (by decide) (by decide) _

theorem ends_following {bracket : Bracket} (h : Form (.following bracket) more)
    (rest : List UInt8) : Ends (more ++ bracket.closer :: rest) := by
  cases h with
  | last hgap => exact ends_blanks hgap (ends_closer bracket rest)
  | next hbefore _ _ _ =>
      rw [List.append_assoc]
      exact ends_blanks hbefore (ends_cons (by decide) (by decide) (by decide) _)

/-- The first byte of a value is no blank and closes no bracket. -/
theorem visible_value (h : Form .value core) :
    ∃ b tail, core = b :: tail ∧ isBlank b = false ∧ ∀ bracket : Bracket, b ≠ bracket.closer := by
  have hcloser : ∀ {b : UInt8}, b ≠ byte ']' → b ≠ byte '}' →
      ∀ bracket : Bracket, b ≠ bracket.closer := by
    intro b hlist hobject bracket
    cases bracket
    · exact hlist
    · exact hobject
  cases h with
  | word hword =>
      simp only [words, List.mem_cons, List.not_mem_nil, or_false] at hword
      rcases hword with rfl | rfl | rfl <;>
        exact ⟨_, _, rfl, by decide, hcloser (by decide) (by decide)⟩
  | number hnumber =>
      obtain ⟨b, tail, heq, hb⟩ := hnumber.exists_digit
      exact ⟨b, tail, heq, isBlank_of_isDigit hb,
        hcloser (ne_of_isDigit hb (by decide)) (ne_of_isDigit hb (by decide))⟩
  | negative _ => exact ⟨_, _, rfl, by decide, hcloser (by decide) (by decide)⟩
  | text _ => exact ⟨_, _, rfl, by decide, hcloser (by decide) (by decide)⟩
  | @bracket bracket _ _ =>
      cases bracket <;> exact ⟨_, _, rfl, by decide, hcloser (by decide) (by decide)⟩

theorem visible_item {bracket : Bracket} (h : Form (.item bracket) core) :
    ∃ b tail, core = b :: tail ∧ isBlank b = false ∧ b ≠ bracket.closer := by
  cases h with
  | element hvalue =>
      obtain ⟨b, tail, heq, hblank, hcloser⟩ := visible_value hvalue
      exact ⟨b, tail, heq, hblank, hcloser .list⟩
  | member _ _ _ _ => exact ⟨byte '"', _, rfl, by decide, by decide⟩

theorem skipBlanks_gap (hgap : Blanks gap) (hb : isBlank b = false) (rest : List UInt8) :
    skipBlanks (gap ++ b :: rest) = b :: rest := by
  rw [skipBlanks_append hgap, skipBlanks_visible hb]

theorem skipScalar_word {c : Char} {word : List Char} (h : c :: word ∈ words)
    (rest : List UInt8) :
    ∃ hlt, skipScalar (byte c) (word.map byte ++ rest) = .ok ⟨(), rest, hlt⟩ := by
  obtain ⟨hlt, hword⟩ := skipWord_of_readWord (readWord_append word rest)
  refine ⟨hlt, ?_⟩
  simp only [words, List.mem_cons, List.cons.injEq, List.not_mem_nil, or_false] at h
  rw [skipScalar]
  rcases h with ⟨rfl, rfl⟩ | ⟨rfl, rfl⟩ | ⟨rfl, rfl⟩
  · rw [if_pos rfl]
    exact hword
  · rw [if_neg (by decide), if_pos rfl]
    exact hword
  · rw [if_neg (by decide), if_neg (by decide), if_pos rfl]
    exact hword

theorem skipScalar_number (hb : isDigit b = true)
    (h : outcome skipNumber (b :: bytes) = .ok ((), rest)) :
    ∃ hlt, skipScalar b bytes = .ok ⟨(), rest, hlt⟩ := by
  have hletter : ∀ {c}, isDigit c = false → b ≠ c := ne_of_isDigit hb
  obtain ⟨hlt, hskip⟩ := outcome_eq_ok_iff.mp h
  refine ⟨hlt, ?_⟩
  rw [skipScalar, if_neg (hletter (by decide)), if_neg (hletter (by decide)),
    if_neg (hletter (by decide)), if_neg (hletter (by decide)), if_pos hb, hskip]

theorem skipScalar_negative (h : outcome skipNumber bytes = .ok ((), rest)) :
    ∃ hlt, skipScalar (byte '-') bytes = .ok ⟨(), rest, hlt⟩ := by
  obtain ⟨hlt, hskip⟩ := outcome_eq_ok_iff.mp h
  refine ⟨Nat.lt_succ_of_lt hlt, ?_⟩
  rw [skipScalar, if_neg (by decide), if_neg (by decide), if_neg (by decide), if_pos rfl, hskip]
  rfl

theorem skipScalar_quote (h : outcome skipText bytes = .ok ((), rest)) :
    ∃ hlt, skipScalar (byte '"') bytes = .ok ⟨(), rest, hlt⟩ := by
  obtain ⟨hlt, hskip⟩ := outcome_eq_ok_iff.mp h
  refine ⟨Nat.lt_succ_of_lt hlt, ?_⟩
  rw [skipScalar, if_neg (by decide), if_neg (by decide), if_neg (by decide), if_neg (by decide),
    if_neg (by decide), if_pos rfl, hskip]
  rfl

/-- The walk gets from one of its states to another. -/
def Passes (phase : Phase) (brackets : List Bracket) (bytes : List UInt8) (phase' : Phase)
    (brackets' : List Bracket) (bytes' : List UInt8) : Prop :=
  ∀ bound within, ∃ within', skipFrom bound phase brackets bytes within =
    skipFrom bound phase' brackets' bytes' within'

theorem taken_le {n : Nat} (h : skipBlanks bytes = b :: rest) (within : bytes.length + n ≤ bound)
    (phase : Phase) : rest.length + phase.taken ≤ bound := by
  have := length_of_skipBlanks h
  cases phase <;> simp only [Phase.taken] <;> omega

section Walk

variable {phase phase' phase'' : Phase} {bracket : Bracket}
  {brackets brackets' brackets'' : List Bracket} {bytes' bytes'' : List UInt8}

theorem Passes.trans (h : Passes phase brackets bytes phase' brackets' bytes')
    (h' : Passes phase' brackets' bytes' phase'' brackets'' bytes'') :
    Passes phase brackets bytes phase'' brackets'' bytes'' := by
  intro bound within
  obtain ⟨within', hstep⟩ := h bound within
  obtain ⟨within'', hstep'⟩ := h' bound within'
  exact ⟨within'', hstep.trans hstep'⟩

theorem passes_scalar (h : skipBlanks bytes = b :: more) (hlist : b ≠ byte '[')
    (hobject : b ≠ byte '{') (hscalar : ∃ hlt, skipScalar b more = .ok ⟨(), rest, hlt⟩) :
    Passes .value brackets bytes .after brackets rest := by
  intro bound within
  obtain ⟨hlt, hscalar⟩ := hscalar
  refine ⟨Nat.le_trans hlt (taken_le h within .after), ?_⟩
  rw [skipFrom]
  split
  · next heq => cases h.symm.trans heq
  · next heq =>
      cases h.symm.trans heq
      rw [if_neg hlist, if_neg hobject]
      simp only [hscalar]

theorem passes_opener (h : skipBlanks bytes = bracket.opener :: rest) :
    Passes .value brackets bytes (.opened bracket) brackets rest := by
  intro bound within
  refine ⟨taken_le h within _, ?_⟩
  rw [skipFrom]
  split
  · next heq => cases h.symm.trans heq
  · next heq =>
      cases h.symm.trans heq
      cases bracket with
      | list => exact if_pos rfl
      | object => exact (if_neg (by decide)).trans (if_pos rfl)

theorem passes_comma (h : skipBlanks bytes = byte ',' :: rest) :
    Passes .after (bracket :: brackets) bytes (.item bracket) brackets rest := by
  intro bound within
  refine ⟨taken_le h within _, ?_⟩
  rw [skipFrom]
  split
  · next heq => cases h.symm.trans heq
  · next heq =>
      cases h.symm.trans heq
      exact if_pos rfl

theorem passes_closer (h : skipBlanks bytes = bracket.closer :: rest) :
    Passes .after (bracket :: brackets) bytes .after brackets rest := by
  intro bound within
  refine ⟨taken_le h within _, ?_⟩
  rw [skipFrom]
  split
  · next heq => cases h.symm.trans heq
  · next heq =>
      cases h.symm.trans heq
      rw [if_neg (by cases bracket <;> decide), if_pos rfl]

theorem passes_empty (h : skipBlanks bytes = bracket.closer :: rest) :
    Passes (.opened bracket) brackets bytes .after brackets rest := by
  intro bound within
  refine ⟨taken_le h within _, ?_⟩
  rw [skipFrom]
  split
  · next heq => cases h.symm.trans heq
  · next heq =>
      cases h.symm.trans heq
      exact if_pos rfl

theorem passes_filled (h : skipBlanks bytes = b :: rest) (hb : b ≠ bracket.closer) :
    Passes (.opened bracket) brackets bytes (.item bracket) brackets bytes := by
  intro bound within
  refine ⟨within, ?_⟩
  rw [skipFrom]
  split
  · next heq => cases h.symm.trans heq
  · next heq =>
      cases h.symm.trans heq
      exact if_neg hb

theorem passes_element : Passes (.item .list) brackets bytes .value (.list :: brackets) bytes :=
  fun _ within => ⟨within, by rw [skipFrom]⟩

theorem passes_key (h : outcome skipKey bytes = .ok ((), rest)) :
    Passes (.item .object) brackets bytes .value (.object :: brackets) rest := by
  intro bound within
  obtain ⟨hlt, hkey⟩ := outcome_eq_ok_iff.mp h
  have within' : rest.length ≤ bound := Nat.le_trans (Nat.le_of_lt hlt) within
  refine ⟨within', ?_⟩
  generalize hnext : skipFrom bound .value (.object :: brackets) rest within' = next
  rw [skipFrom]
  simp only [hkey]
  exact hnext

end Walk

/-- What is well formed as a part of a value is passed over. -/
def Part.Passed : Part → List UInt8 → Prop
  | .value, core => ∀ gap rest brackets, Blanks gap → Ends rest →
      Passes .value brackets (gap ++ (core ++ rest)) .after brackets rest
  | .item bracket, core => ∀ gap rest brackets, Blanks gap → Ends rest →
      Passes (.item bracket) brackets (gap ++ (core ++ rest)) .after (bracket :: brackets) rest
  | .items bracket, inside => ∀ rest brackets,
      Passes (.opened bracket) brackets (inside ++ bracket.closer :: rest) .after brackets rest
  | .following bracket, more => ∀ rest brackets,
      Passes .after (bracket :: brackets) (more ++ bracket.closer :: rest) .after brackets rest

theorem outcome_skipKey {key before : List UInt8} (hgap : Blanks gap) (hkey : TextForm key)
    (hbefore : Blanks before) (rest : List UInt8) :
    outcome skipKey (gap ++ byte '"' :: (key ++ byte '"' :: (before ++ byte ':' :: rest))) =
      .ok ((), rest) := by
  have hquote := skipBlanks_gap hgap (b := byte '"') (by decide)
    (key ++ byte '"' :: (before ++ byte ':' :: rest))
  have hcolon := skipBlanks_gap hbefore (b := byte ':') (by decide) rest
  obtain ⟨_, hread⟩ := outcome_eq_ok_iff.mp
    (outcome_skipText_iff.mpr ⟨key, hkey, rfl⟩ :
      outcome skipText (key ++ byte '"' :: (before ++ byte ':' :: rest)) = .ok ((), _))
  rw [outcome, skipKey]
  split
  · next heq => cases hquote.symm.trans heq
  · next heq =>
      cases hquote.symm.trans heq
      rw [if_neg (by decide)]
      simp only [hread]
      split
      · next heq => cases hcolon.symm.trans heq
      · next heq =>
          cases hcolon.symm.trans heq
          rw [if_neg (by decide)]
          rfl

theorem Form.passed {part : Part} (h : Form part core) : part.Passed core := by
  induction h with
  | @word word hword =>
      intro gap rest brackets hgap _
      obtain ⟨c, letters, rfl⟩ : ∃ c letters, word = c :: letters := by
        cases word with
        | nil => exact absurd hword (by decide)
        | cons c letters => exact ⟨c, letters, rfl⟩
      have hc : c = 'n' ∨ c = 't' ∨ c = 'f' := by
        simp only [words, List.mem_cons, List.cons.injEq, List.not_mem_nil, or_false] at hword
        rcases hword with ⟨hc, -⟩ | ⟨hc, -⟩ | ⟨hc, -⟩ <;> simp [hc]
      have hvisible : isBlank (byte c) = false ∧ byte c ≠ byte '[' ∧ byte c ≠ byte '{' := by
        rcases hc with rfl | rfl | rfl <;> decide
      exact passes_scalar (skipBlanks_gap hgap hvisible.1 _) hvisible.2.1 hvisible.2.2
        (skipScalar_word hword rest)
  | @number number hnumber =>
      intro gap rest brackets hgap hrest
      have hskip := outcome_skipNumber hnumber hrest
      obtain ⟨b, tail, heq, hb⟩ := hnumber.exists_digit
      subst heq
      exact passes_scalar (skipBlanks_gap hgap (isBlank_of_isDigit hb) _)
        (ne_of_isDigit hb (by decide)) (ne_of_isDigit hb (by decide)) (skipScalar_number hb hskip)
  | @negative number hnumber =>
      intro gap rest brackets hgap hrest
      exact passes_scalar (skipBlanks_gap hgap (by decide) _) (by decide) (by decide)
        (skipScalar_negative (outcome_skipNumber hnumber hrest))
  | @text form hform =>
      intro gap rest brackets hgap _
      rw [enclosed_append]
      exact passes_scalar (skipBlanks_gap hgap (by decide) _) (by decide) (by decide)
        (skipScalar_quote (outcome_skipText_iff.mpr ⟨form, hform, rfl⟩))
  | @bracket bracket inside _ ih =>
      intro gap rest brackets hgap _
      rw [enclosed_append]
      exact (passes_opener (skipBlanks_gap hgap (by cases bracket <;> decide) _)).trans
        (ih rest brackets)
  | element _ ih =>
      intro gap rest brackets hgap hrest
      exact passes_element.trans (ih gap rest _ hgap hrest)
  | member hkey hbefore hbehind _ ih =>
      intro gap rest brackets hgap hrest
      have hskip := outcome_skipKey hgap hkey hbefore
      simp only [List.cons_append, List.append_assoc]
      exact (passes_key (hskip _)).trans (ih _ rest _ hbehind hrest)
  | empty hgap =>
      intro rest brackets
      exact passes_empty (skipBlanks_gap hgap (isBlank_closer _) _)
  | @first bracket gap core more hgap hcore hmore ih ih' =>
      intro rest brackets
      obtain ⟨b, tail, heq, hblank, hcloser⟩ := visible_item hcore
      have hvisible : skipBlanks (gap ++ (core ++ (more ++ bracket.closer :: rest))) =
          b :: (tail ++ (more ++ bracket.closer :: rest)) := by
        rw [heq]
        exact skipBlanks_gap hgap hblank _
      simp only [List.append_assoc]
      exact (passes_filled hvisible hcloser).trans
        ((ih gap _ brackets hgap (ends_following hmore rest)).trans (ih' rest brackets))
  | last hgap =>
      intro rest brackets
      exact passes_closer (skipBlanks_gap hgap (isBlank_closer _) _)
  | next hbefore hbehind _ hmore ih ih' =>
      intro rest brackets
      simp only [List.cons_append, List.append_assoc]
      exact (passes_comma (skipBlanks_gap hbefore (by decide) _)).trans
        ((ih _ _ brackets hbehind (ends_following hmore rest)).trans (ih' rest brackets))

/-- A value is skipped with the blanks before it, if it ends there. -/
theorem outcome_skipValue (hgap : Blanks gap) (hcore : Form .value core) (hrest : Ends rest) :
    outcome skipValue (gap ++ (core ++ rest)) = .ok ((), rest) := by
  obtain ⟨within, hskip⟩ := hcore.passed gap rest [] hgap hrest _ (Nat.le_refl _)
  have hend : skipFrom _ .after [] rest within = .ok ⟨(), rest, within⟩ := by rw [skipFrom]
  exact outcome_eq_ok_iff.mpr ⟨within, hskip.trans hend⟩

end SentenceGuide.Json
