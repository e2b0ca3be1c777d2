import Mathlib.Algebra.Ring.Parity
import SentenceGuide.Proofs.Rules

/-!
# Lines are renderings of tokens

A token has one spelling, except for an arrow, which has two.  A line renders some
tokens if it has their spellings in order, with white space before, between and
behind them.  There may be none of it, except between two words, which would
otherwise be one.

Not every token can be rendered.  A word cannot hold what ends it, and a quoted
text cannot hold a quote.  The tokens of a line are the ones that it renders, and
every line but one in which a quote is left open renders some
(`tokens_iff_renders`).

The difficulty is the dash, which may be part of a word and may start an arrow.
It is dealt with once, in what it means that a text stops a word (`Stops`).  The
rest goes by the pieces that a line is made of (`lineInduction`), with one
equation for each of them.
-/

namespace SentenceGuide.Bnf

open Text (isBlank)

/-! ## Spellings -/

/-- A text that can be a word: it is not empty, and nothing in it would end it. -/
structure IsName (name : List Char) : Prop where
  ne_nil : name ≠ []
  plain : ∀ c ∈ name, isBlank c = false ∧ c ≠ '=' ∧ c ≠ '|' ∧ c ≠ '"'
  no_arrow : ¬ ['-', '>'] <:+: name

/-- White space, or nothing. -/
def IsGap (gap : List Char) : Prop := ∀ c ∈ gap, isBlank c = true

namespace Token

/-- A token that has a spelling which reads as that token. -/
def Valid : Token → Prop
  | arrow => True
  | bar => True
  | word name => IsName name.toList
  | quoted text => '"' ∉ text.toList

/-- Whether a token is a word. -/
def isWord : Token → Bool
  | word _ => true
  | _ => false

/-- The ways to write a token. -/
inductive Spelled : Token → List Char → Prop where
  | equals : Spelled arrow ['=']
  | dashed : Spelled arrow ['-', '>']
  | bar : Spelled bar ['|']
  | word (name : String) : Spelled (word name) name.toList
  | quoted (text : String) : Spelled (quoted text) ('"' :: (text.toList ++ ['"']))

end Token

/-- The texts that render some tokens, behind a word or not.  A gap that separates
two words is not empty. -/
inductive Renders : Bool → List Token → List Char → Prop where
  /-- White space may stand at the end. -/
  | done {behindWord : Bool} {gap : List Char} : IsGap gap → Renders behindWord [] gap
  /-- A token stands behind white space. -/
  | token {behindWord : Bool} {gap spelling rest : List Char} {t : Token} {ts : List Token} :
      IsGap gap → (behindWord = true → t.isWord = true → gap ≠ []) → t.Spelled spelling →
        Renders t.isWord ts rest → Renders behindWord (t :: ts) (gap ++ (spelling ++ rest))

/-! ## What ends a word -/

/-- A text before which a word ends: it is empty, or a delimiter or an arrow is at
its front. -/
def Stops : List Char → Prop
  | [] => True
  | c :: cs => isDelimiter c = true ∨ atArrow (c :: cs) = true

variable {c : Char} {cs name text gap rest spelling line : List Char} {t : Token}
  {ts : List Token} {behindWord : Bool}

theorem isGap_nil : IsGap [] := fun _ hd => absurd hd List.not_mem_nil

theorem isGap_cons : IsGap (c :: gap) ↔ isBlank c = true ∧ IsGap gap := List.forall_mem_cons

theorem isDelimiter_eq_false_iff :
    isDelimiter c = false ↔ isBlank c = false ∧ c ≠ '=' ∧ c ≠ '|' ∧ c ≠ '"' := by
  simp [isDelimiter, and_assoc]

theorem atArrow_iff : atArrow (c :: cs) = true ↔ c = '-' ∧ cs.head? = some '>' := by
  match cs with
  | [] => simp [atArrow]
  | d :: cs =>
      by_cases hc : c = '-'
      · by_cases hd : d = '>'
        · simp [hc, hd, atArrow]
        · simp [hd, atArrow]
      · simp [hc, atArrow]

theorem IsName.tail (h : IsName (c :: name)) (hne : name ≠ []) : IsName name where
  ne_nil := hne
  plain d hd := h.plain d (List.mem_cons_of_mem c hd)
  no_arrow harrow := h.no_arrow (List.infix_cons harrow)

/-- No arrow starts within a name, not even with a dash at its end. -/
theorem IsName.not_atArrow (h : IsName (c :: name)) (hrest : Stops rest) :
    atArrow (c :: (name ++ rest)) = false := by
  rw [← Bool.not_eq_true, atArrow_iff]
  rintro ⟨rfl, hhead⟩
  cases name with
  | cons d name =>
      cases hhead
      exact h.no_arrow ⟨[], name, rfl⟩
  | nil =>
      cases rest with
      | nil => cases hhead
      | cons d rest =>
          cases hhead
          -- The text behind the dash would have to start with `>`, which stops nothing.
          rcases hrest with hd | hd
          · exact absurd hd (by decide)
          · exact absurd (atArrow_iff.mp hd).1 (by decide)

theorem IsName.cutWord_append (h : IsName name) (hrest : Stops rest) :
    cutWord (name ++ rest) = (name, rest) := by
  induction name with
  | nil => exact absurd rfl h.ne_nil
  | cons c name ih =>
      have hc : isDelimiter c = false := isDelimiter_eq_false_iff.mpr (h.plain c List.mem_cons_self)
      have hcut : cutWord (name ++ rest) = (name, rest) := by
        cases name with
        | cons d name => exact ih (h.tail (List.cons_ne_nil d name))
        | nil =>
            cases rest with
            | nil => rfl
            | cons d rest =>
                rw [List.nil_append, cutWord, if_pos (by simpa [Stops] using hrest)]
      rw [List.cons_append, cutWord, hc, h.not_atArrow hrest, hcut]
      rfl

/-- What is cut off a text is plain and holds no arrow, and the rest stops it. -/
theorem cutWord_spec (cs : List Char) :
    (∀ d ∈ (cutWord cs).1, isDelimiter d = false) ∧ ¬ ['-', '>'] <:+: (cutWord cs).1 ∧
      Stops (cutWord cs).2 := by
  induction cs with
  | nil => exact ⟨fun _ hd => absurd hd List.not_mem_nil, by simp [cutWord], trivial⟩
  | cons c cs ih =>
      obtain ⟨hplain, harrow, hstops⟩ := ih
      rw [cutWord]
      split
      · next hc =>
          refine ⟨fun _ hd => absurd hd List.not_mem_nil, by simp, ?_⟩
          simpa [Stops] using hc
      · next hc =>
          obtain ⟨hdelimiter, hnone⟩ : isDelimiter c = false ∧ ¬ atArrow (c :: cs) = true := by
            simpa using hc
          refine ⟨?_, ?_, hstops⟩
          · intro d hd
            rcases List.mem_cons.mp hd with rfl | hd
            · exact hdelimiter
            · exact hplain d hd
          · -- An arrow in the word would start an arrow in the text.
            intro hinfix
            rcases List.infix_cons_iff.mp hinfix with ⟨after, hprefix⟩ | hinfix
            · obtain ⟨rfl, htail⟩ := List.cons.inj hprefix
              apply hnone
              rw [atArrow_iff, ← cutWord_append cs, ← htail]
              exact ⟨rfl, rfl⟩
            · exact harrow hinfix

theorem isName_cutWord (hd : isDelimiter c = false) (ha : atArrow (c :: cs) = false) :
    IsName (cutWord (c :: cs)).1 := by
  obtain ⟨hplain, harrow, -⟩ := cutWord_spec (c :: cs)
  refine ⟨?_, fun d hd => isDelimiter_eq_false_iff.mp (hplain d hd), harrow⟩
  simp [cutWord, hd, ha]

theorem cutQuote_append (h : '"' ∉ text) : cutQuote (text ++ '"' :: rest) = some (text, rest) := by
  induction text with
  | nil => rfl
  | cons c text ih =>
      obtain ⟨hc, htext⟩ : '"' ≠ c ∧ '"' ∉ text := by simpa using h
      rw [List.cons_append, cutQuote, if_neg (Ne.symm hc), ih htext]
      rfl

theorem cutQuote_eq_none_iff : cutQuote cs = none ↔ '"' ∉ cs := by
  induction cs with
  | nil => simp [cutQuote]
  | cons c cs ih =>
      by_cases hc : c = '"'
      · simp [cutQuote, hc]
      · rw [cutQuote, if_neg hc, Option.map_eq_none_iff, ih]
        simp [Ne.symm hc]

theorem readQuoted_append (h : '"' ∉ text) :
    readQuoted (c :: (text ++ '"' :: rest)) = some (.quoted (String.ofList text), rest) := by
  rw [readQuoted, List.drop_one, List.tail_cons, cutQuote_append h, Option.map_some]

theorem readQuoted_eq_none_iff : readQuoted (c :: cs) = none ↔ '"' ∉ cs := by
  rw [readQuoted, Option.map_eq_none_iff]
  exact cutQuote_eq_none_iff

/-! ## The tokens of a line, piece by piece -/

theorem tokens_nil : tokens [] = some [] := by
  rw [tokens.eq_def]

theorem tokens_cons (c : Char) (cs : List Char) :
    tokens (c :: cs) =
      if isBlank c then tokens cs
      else if c = '=' then (tokens cs).map (.arrow :: ·)
      else if atArrow (c :: cs) then (tokens (cs.drop 1)).map (.arrow :: ·)
      else if c = '|' then (tokens cs).map (.bar :: ·)
      else if c = '"' then
        (readQuoted (c :: cs)).bind fun (t, rest) => (tokens rest).map (t :: ·)
      else (tokens (readWord (c :: cs)).2).map ((readWord (c :: cs)).1 :: ·) := by
  rw [tokens.eq_def]
  dsimp only
  congr 5
  split
  · next hcut => rw [hcut, Option.bind_none]
  · next hcut => rw [hcut, Option.bind_some]

theorem tokens_blank (h : isBlank c = true) : tokens (c :: cs) = tokens cs := by
  rw [tokens_cons, if_pos h]

theorem tokens_equals (cs : List Char) : tokens ('=' :: cs) = (tokens cs).map (.arrow :: ·) := by
  rw [tokens_cons, if_neg (by decide), if_pos rfl]

theorem tokens_dashed (cs : List Char) :
    tokens ('-' :: '>' :: cs) = (tokens cs).map (.arrow :: ·) := by
  rw [tokens_cons, if_neg (by decide), if_neg (by decide), if_pos (atArrow_iff.mpr ⟨rfl, rfl⟩),
    List.drop_one, List.tail_cons]

theorem tokens_bar (cs : List Char) : tokens ('|' :: cs) = (tokens cs).map (.bar :: ·) := by
  rw [tokens_cons, if_neg (by decide), if_neg (by decide), if_neg (by simp [atArrow]), if_pos rfl]

theorem tokens_quote (cs : List Char) :
    tokens ('"' :: cs) =
      (readQuoted ('"' :: cs)).bind fun (t, rest) => (tokens rest).map (t :: ·) := by
  rw [tokens_cons, if_neg (by decide), if_neg (by decide), if_neg (by simp [atArrow]),
    if_neg (by decide), if_pos rfl]

theorem tokens_unclosed (h : '"' ∉ cs) : tokens ('"' :: cs) = none := by
  rw [tokens_quote, readQuoted_eq_none_iff.mpr h, Option.bind_none]

theorem tokens_quoted (h : '"' ∉ text) (cs : List Char) :
    tokens ('"' :: (text ++ '"' :: cs)) =
      (tokens cs).map (.quoted (String.ofList text) :: ·) := by
  rw [tokens_quote, readQuoted_append h, Option.bind_some]

theorem tokens_word (h : IsName name) (hcs : Stops cs) :
    tokens (name ++ cs) = (tokens cs).map (.word (String.ofList name) :: ·) := by
  have hcut := h.cutWord_append hcs
  cases name with
  | nil => exact absurd rfl h.ne_nil
  | cons c name =>
      obtain ⟨hblank, hequals, hbar, hquote⟩ := h.plain c List.mem_cons_self
      rw [List.cons_append] at hcut ⊢
      rw [tokens_cons, if_neg (by simp [hblank]), if_neg hequals,
        if_neg (by simp [h.not_atArrow hcs]), if_neg hbar, if_neg hquote, readWord_eq, hcut]

theorem tokens_gap (h : IsGap gap) (cs : List Char) : tokens (gap ++ cs) = tokens cs := by
  induction gap with
  | nil => rfl
  | cons c gap ih =>
      obtain ⟨hc, hgap⟩ := isGap_cons.mp h
      rw [List.cons_append, tokens_blank hc, ih hgap]

/-- Every line is empty, or it is a shorter line behind white space, a spelling of
an arrow, a bar, a quoted text or a word that ends there, or it is a quote that is
left open. -/
@[elab_as_elim]
theorem lineInduction {motive : List Char → Prop} (nil : motive [])
    (blank : ∀ c cs, isBlank c = true → motive cs → motive (c :: cs))
    (equals : ∀ cs, motive cs → motive ('=' :: cs))
    (dashed : ∀ cs, motive cs → motive ('-' :: '>' :: cs))
    (bar : ∀ cs, motive cs → motive ('|' :: cs))
    (unclosed : ∀ cs, '"' ∉ cs → motive ('"' :: cs))
    (quoted : ∀ text cs, '"' ∉ text → motive cs → motive ('"' :: (text ++ '"' :: cs)))
    (word : ∀ name cs, IsName name → Stops cs → motive cs → motive (name ++ cs))
    (line : List Char) : motive line := by
  induction line using tokens.induct with
  | case1 => exact nil
  | case2 c cs hblank ih => exact blank c cs hblank ih
  | case3 cs _ ih => exact equals cs ih
  | case4 c cs _ _ harrow ih =>
      obtain ⟨rfl, hhead⟩ := atArrow_iff.mp harrow
      obtain ⟨cs, rfl⟩ := List.head?_eq_some_iff.mp hhead
      exact dashed cs ih
  | case5 cs _ _ _ ih => exact bar cs ih
  | case6 cs _ _ _ _ hread => exact unclosed cs (readQuoted_eq_none_iff.mp hread)
  | case7 cs t rest _ _ _ _ hread _ ih =>
      obtain ⟨text, rfl, htext, -⟩ := readQuoted_eq_some hread
      exact quoted text rest htext ih
  | case8 c cs hblank hequals harrow hbar hquote ih =>
      have hdelimiter : isDelimiter c = false :=
        isDelimiter_eq_false_iff.mpr ⟨Bool.not_eq_true _ ▸ hblank, hequals, hbar, hquote⟩
      have hname := isName_cutWord hdelimiter (Bool.not_eq_true _ ▸ harrow)
      rw [readWord_eq] at ih
      have hword := word _ _ hname (cutWord_spec (c :: cs)).2.2 ih
      rwa [cutWord_append] at hword

/-! ## From tokens to renderings -/

theorem Renders.blank (hc : isBlank c = true) (h : Renders false ts cs) :
    Renders behindWord ts (c :: cs) := by
  cases h with
  | done hgap => exact .done (isGap_cons.mpr ⟨hc, hgap⟩)
  | token hgap _ hspelled hrest =>
      exact .token (isGap_cons.mpr ⟨hc, hgap⟩) (fun _ _ => List.cons_ne_nil _ _) hspelled hrest

theorem IsName.not_stops (h : IsName name) (hrest : Stops rest) : ¬ Stops (name ++ rest) := by
  cases name with
  | nil => exact absurd rfl h.ne_nil
  | cons c name =>
      have hc : isDelimiter c = false := isDelimiter_eq_false_iff.mpr (h.plain c List.mem_cons_self)
      rw [List.cons_append, Stops, hc, h.not_atArrow hrest]
      simp

/-- The tokens of a line, if it has any, are valid and the line renders them, behind
a word too if the line stops it. -/
def RendersTokens (line : List Char) : Prop :=
  ∀ ts, tokens line = some ts → (∀ t ∈ ts, t.Valid) ∧
    ∀ behindWord, (behindWord = true → Stops line) → Renders behindWord ts line

/-- One more token in front.  If it is a word, it must end where it ends, and must
not be glued to a word before it. -/
theorem RendersTokens.token (hspelled : t.Spelled spelling)
    (htokens : tokens (spelling ++ cs) = (tokens cs).map (t :: ·)) (ht : t.Valid)
    (hword : t.isWord = true → Stops cs ∧ ¬ Stops (spelling ++ cs)) (h : RendersTokens cs) :
    RendersTokens (spelling ++ cs) := by
  intro ts hts
  rw [htokens] at hts
  obtain ⟨us, hus, rfl⟩ := Option.map_eq_some_iff.mp hts
  obtain ⟨hvalid, hrenders⟩ := h us hus
  constructor
  · intro u hu
    rcases List.mem_cons.mp hu with rfl | hu
    · exact ht
    · exact hvalid u hu
  · intro behindWord hbehind
    refine .token isGap_nil ?_ hspelled
      (hrenders t.isWord fun htrue => (hword htrue).1)
    exact fun htrue hisWord => absurd (hbehind htrue) (hword hisWord).2

theorem rendersTokens (line : List Char) : RendersTokens line := by
  induction line using lineInduction with
  | nil =>
      intro ts hts
      rw [tokens_nil] at hts
      cases hts
      exact ⟨fun _ ht => absurd ht List.not_mem_nil,
        fun _ _ => .done isGap_nil⟩
  | blank c cs hc ih =>
      intro ts hts
      rw [tokens_blank hc] at hts
      obtain ⟨hvalid, hrenders⟩ := ih ts hts
      exact ⟨hvalid, fun _ _ => (hrenders false (by simp)).blank hc⟩
  | equals cs ih => exact ih.token .equals (tokens_equals cs) trivial nofun
  | dashed cs ih => exact ih.token .dashed (tokens_dashed cs) trivial nofun
  | bar cs ih => exact ih.token .bar (tokens_bar cs) trivial nofun
  | unclosed cs hcs =>
      intro ts hts
      rw [tokens_unclosed hcs] at hts
      cases hts
  | quoted text cs htext ih =>
      have hspelled := Token.Spelled.quoted (String.ofList text)
      have htokens := tokens_quoted htext cs
      rw [String.toList_ofList] at hspelled
      simpa using ih.token hspelled (by simpa using htokens) (by simpa [Token.Valid]) nofun
  | word name cs hname hcs ih =>
      have hspelled := Token.Spelled.word (String.ofList name)
      rw [String.toList_ofList] at hspelled
      exact ih.token hspelled (tokens_word hname hcs) (by simpa [Token.Valid])
        fun _ => ⟨hcs, hname.not_stops hcs⟩

/-! ## From renderings to tokens -/

theorem stops_gap (hgap : IsGap gap) (hne : gap ≠ []) (rest : List Char) :
    Stops (gap ++ rest) := by
  obtain ⟨c, gap, rfl⟩ := List.exists_cons_of_ne_nil hne
  exact .inl (by simp [isDelimiter, (isGap_cons.mp hgap).1])

/-- What is rendered behind a word stops it. -/
theorem Renders.stops (h : Renders true ts line) : Stops line := by
  cases h with
  | done hgap =>
      cases line with
      | nil => exact trivial
      | cons c gap => simpa using stops_gap hgap (List.cons_ne_nil c gap) []
  | @token _ gap _ _ t _ hgap hne hspelled _ =>
      by_cases hnil : gap = []
      · subst hnil
        cases hspelled with
        | equals => exact .inl rfl
        | dashed => exact .inr rfl
        | bar => exact .inl rfl
        | word name => exact absurd rfl (hne rfl rfl)
        | quoted text => exact .inl rfl
      · exact stops_gap hgap hnil _

/-- A line that renders valid tokens has just these. -/
theorem Renders.tokens_eq (h : Renders behindWord ts line) (hvalid : ∀ t ∈ ts, t.Valid) :
    tokens line = some ts := by
  induction h with
  | @done _ gap hgap => rw [← List.append_nil gap, tokens_gap hgap, tokens_nil]
  | @token _ gap spelling rest t ts hgap _ hspelled hrest ih =>
      have hts : tokens rest = some ts := ih fun u hu => hvalid u (List.mem_cons_of_mem t hu)
      have ht : t.Valid := hvalid t List.mem_cons_self
      rw [tokens_gap hgap]
      cases hspelled with
      | equals => rw [List.singleton_append, tokens_equals, hts, Option.map_some]
      | dashed => rw [List.cons_append, List.singleton_append, tokens_dashed, hts, Option.map_some]
      | bar => rw [List.singleton_append, tokens_bar, hts, Option.map_some]
      | word name =>
          rw [tokens_word ht hrest.stops, hts, Option.map_some, String.ofList_toList]
      | quoted text =>
          rw [List.cons_append, List.append_assoc, List.singleton_append, tokens_quoted ht, hts,
            Option.map_some, String.ofList_toList]

/-! ## Lines without tokens -/

theorem count_quote_of_isName (h : IsName name) : name.count '"' = 0 :=
  List.count_eq_zero.mpr fun hmem => (h.plain _ hmem).2.2.2 rfl

/-- A line has no tokens just if the number of its quotes is odd. -/
theorem tokens_eq_none_iff (line : List Char) : tokens line = none ↔ Odd (line.count '"') := by
  induction line using lineInduction with
  | nil => simp [tokens_nil]
  | blank c cs hc ih =>
      have hne : c ≠ '"' := by
        rintro rfl
        exact absurd hc (by decide)
      rw [tokens_blank hc, ih, List.count_cons_of_ne hne]
  | equals cs ih => simp [tokens_equals, ih]
  | dashed cs ih => simp [tokens_dashed, ih]
  | bar cs ih => simp [tokens_bar, ih]
  | unclosed cs hcs => simp [tokens_unclosed hcs, List.count_eq_zero.mpr hcs]
  | quoted text cs htext ih =>
      have hcount : ('"' :: (text ++ '"' :: cs)).count '"' = cs.count '"' + 2 := by
        simp [List.count_eq_zero.mpr htext]
      rw [tokens_quoted htext, Option.map_eq_none_iff, ih, hcount]
      simp [parity_simps]
  | word name cs hname hcs ih =>
      rw [tokens_word hname hcs, Option.map_eq_none_iff, ih, List.count_append,
        count_quote_of_isName hname, Nat.zero_add]

theorem isGap_of_tokens_eq_nil (h : tokens line = some []) : IsGap line := by
  cases (rendersTokens line [] h).2 false (by simp) with
  | done hgap => exact hgap

/-- The tokens of a line are the valid tokens that it renders.  It has none just if
it holds an odd number of quotes, and then the fault is a quote left open. -/
theorem tokens_iff_renders (line : List Char) :
    (∀ ts, tokens line = some ts ↔ (∀ t ∈ ts, t.Valid) ∧ Renders false ts line) ∧
    (tokens line = none ↔ Odd (line.count '"')) ∧
    (Rule.ofLine line = .error .unclosedQuote ↔ Odd (line.count '"')) := by
  refine ⟨?_, tokens_eq_none_iff line, ?_⟩
  · intro ts
    constructor
    · intro h
      obtain ⟨hvalid, hrenders⟩ := rendersTokens line ts h
      exact ⟨hvalid, hrenders false (by simp)⟩
    · rintro ⟨hvalid, hrenders⟩
      exact hrenders.tokens_eq hvalid
  · rw [← tokens_eq_none_iff, Rule.ofLine]
    cases h : tokens line with
    | none => simp
    | some ts => simp [ofTokens_ne_unclosedQuote]

end SentenceGuide.Bnf
