import Mathlib.Data.Set.List
import SentenceGuide.Bnf.Rule

/-!
# What tokens write a rule

Some tokens write a rule if they are a word, an arrow and a body without an arrow.
The alternatives of the rule are the stretches of the body between its bars, each
symbol written by one token (`ofTokens_of_stretches`).  A body without an arrow has
such alternatives (`exists_alternatives`), since no bar is left over in a stretch.

All other tokens are at fault by the first thing that is wrong with them.  A quote
that is left open is not among these, for then there are no tokens.
-/

namespace SentenceGuide.Bnf

/-- The token that writes a symbol. -/
def Token.ofSymbol : Symbol → Token
  | .nonterminal name => .word name
  | .terminal text => .quoted text

variable {s body ts : List Token} {t : Token} {name : String}

/-! ## Stretches -/

theorem stretches_eq_splitOn (body : List Token) : stretches body = body.splitOn .bar := by
  induction body with
  | nil => rfl
  | cons t ts ih =>
      rw [stretches, List.splitOn_cons_eq_if_modifyHead, ih]
      by_cases ht : t = .bar
      · simp [ht]
      · rw [if_neg ht, if_neg (by simpa using ht)]
        cases hs : ts.splitOn Token.bar with
        | nil => exact absurd (ih ▸ hs) (stretches_ne_nil ts)
        | cons s ss => rfl

/-- Nothing but the bars is lost between stretches. -/
theorem flatten_stretches (body : List Token) :
    (stretches body).flatten = body.filter (· ≠ .bar) := by
  induction body with
  | nil => rfl
  | cons t ts ih =>
      rw [stretches]
      by_cases ht : t = .bar
      · simp [ht, ih]
      · rw [if_neg ht, List.filter_cons_of_pos (by simpa using ht), ← ih]
        cases hs : stretches ts with
        | nil => exact absurd hs (stretches_ne_nil ts)
        | cons s ss => rfl

theorem mem_stretch_iff : (∃ s ∈ stretches body, t ∈ s) ↔ t ∈ body ∧ t ≠ .bar := by
  rw [← List.mem_flatten, flatten_stretches, List.mem_filter, decide_eq_true_iff]

/-! ## All or nothing -/

section MapM

variable {ε α β : Type} {f : α → Except ε β} {g : β → α} {e : ε}

theorem mapM_map_eq_ok (h : ∀ b, f (g b) = .ok b) (bs : List β) :
    (bs.map g).mapM f = .ok bs := by
  induction bs with
  | nil => rfl
  | cons b bs ih =>
      rw [List.map_cons, List.mapM_cons, h, ih]
      rfl

/-- If only one fault arises, and it does, it is the fault of the whole. -/
theorem mapM_eq_error {items : List α} (hsome : ∃ item ∈ items, f item = .error e)
    (honly : ∀ item ∈ items, ∀ e', f item = .error e' → e' = e) : items.mapM f = .error e := by
  induction items with
  | nil =>
      obtain ⟨item, hitem, -⟩ := hsome
      exact absurd hitem List.not_mem_nil
  | cons item items ih =>
      rw [List.mapM_cons]
      cases hfirst : f item with
      | error e' =>
          cases honly item List.mem_cons_self e' hfirst
          rfl
      | ok b =>
          obtain ⟨item', hmem, hitem'⟩ := hsome
          rcases List.mem_cons.mp hmem with rfl | hmem
          · rw [hfirst] at hitem'
            cases hitem'
          · rw [ih ⟨item', hmem, hitem'⟩ fun i hi => honly i (List.mem_cons_of_mem item hi)]
            rfl

end MapM

/-! ## Alternatives -/

theorem symbol_ofSymbol (s : Symbol) : (Token.ofSymbol s).symbol = .ok s := by
  cases s <;> rfl

theorem mem_range_ofSymbol (hbar : t ≠ .bar) (harrow : t ≠ .arrow) :
    t ∈ Set.range Token.ofSymbol := by
  cases t with
  | arrow => exact absurd rfl harrow
  | bar => exact absurd rfl hbar
  | word name => exact ⟨.nonterminal name, rfl⟩
  | quoted text => exact ⟨.terminal text, rfl⟩

/-- A stretch without arrows is written by symbols. -/
theorem mem_range_of_stretch (hs : s ∈ stretches body) (harrow : .arrow ∉ s) :
    s ∈ Set.range (List.map Token.ofSymbol) := by
  rw [Set.range_list_map]
  intro t ht
  apply mem_range_ofSymbol (mem_stretch_iff.mp ⟨s, hs, ht⟩).2
  rintro rfl
  exact harrow ht

/-- A stretch with an arrow is at fault by it. -/
theorem mapM_symbol_eq_error (hs : s ∈ stretches body) (harrow : .arrow ∈ s) :
    s.mapM Token.symbol = .error .strayArrow := by
  refine mapM_eq_error ⟨.arrow, harrow, rfl⟩ ?_
  intro t ht e he
  cases t with
  | arrow =>
      cases he
      rfl
  | bar => exact absurd rfl (mem_stretch_iff.mp ⟨s, hs, ht⟩).2
  | word name => cases he
  | quoted text => cases he

theorem mapM_mapM_symbol_eq_ok (alternatives : List (List Symbol)) :
    (alternatives.map (·.map Token.ofSymbol)).mapM (fun stretch => stretch.mapM Token.symbol) =
      .ok alternatives :=
  mapM_map_eq_ok (mapM_map_eq_ok symbol_ofSymbol) alternatives

theorem mapM_mapM_symbol_eq_error (harrow : .arrow ∈ body) :
    (stretches body).mapM (fun stretch => stretch.mapM Token.symbol) = .error .strayArrow := by
  obtain ⟨s, hs, hmem⟩ := mem_stretch_iff.mpr ⟨harrow, by simp⟩
  apply mapM_eq_error ⟨s, hs, mapM_symbol_eq_error hs hmem⟩
  intro s hs e he
  by_cases hmem : .arrow ∈ s
  · rw [mapM_symbol_eq_error hs hmem] at he
    cases he
    rfl
  · obtain ⟨symbols, rfl⟩ := mem_range_of_stretch hs hmem
    rw [mapM_map_eq_ok symbol_ofSymbol] at he
    cases he

/-- A body without arrows is written by alternatives. -/
theorem exists_alternatives (harrow : .arrow ∉ body) :
    ∃ alternatives : List (List Symbol),
      stretches body = alternatives.map (·.map Token.ofSymbol) := by
  have hrange : stretches body ∈ Set.range (List.map (List.map Token.ofSymbol)) := by
    rw [Set.range_list_map]
    intro s hs
    exact mem_range_of_stretch hs fun hmem => harrow (mem_stretch_iff.mp ⟨s, hs, hmem⟩).1
  obtain ⟨alternatives, h⟩ := hrange
  exact ⟨alternatives, h.symm⟩

/-! ## The rule of some tokens -/

theorem ofTokens_of_stretches {alternatives : List (List Symbol)}
    (h : stretches body = alternatives.map (·.map Token.ofSymbol)) :
    Rule.ofTokens (.word name :: .arrow :: body) = .ok ⟨name, alternatives⟩ := by
  rw [Rule.ofTokens, h, mapM_mapM_symbol_eq_ok]
  rfl

theorem ofTokens_of_arrow (h : .arrow ∈ body) :
    Rule.ofTokens (.word name :: .arrow :: body) = .error .strayArrow := by
  rw [Rule.ofTokens, mapM_mapM_symbol_eq_error h]
  rfl

theorem ofTokens_of_no_arrow (h : ts.head? ≠ some .arrow) :
    Rule.ofTokens (.word name :: ts) = .error .missingArrow := by
  cases ts with
  | nil => rfl
  | cons t ts =>
      cases t with
      | arrow => exact absurd rfl h
      | bar => rfl
      | word other => rfl
      | quoted text => rfl

theorem ofTokens_of_no_word (hne : ts ≠ []) (h : ∀ name, ts.head? ≠ some (.word name)) :
    Rule.ofTokens ts = .error .badRuleName := by
  cases ts with
  | nil => exact absurd rfl hne
  | cons t ts =>
      cases t with
      | arrow => rfl
      | bar => rfl
      | word name => exact absurd rfl (h name)
      | quoted text => rfl

/-- Tokens that write no rule are at fault in one of three ways, if there are any. -/
theorem ofTokens_eq_error {kind : RuleFault} (h : Rule.ofTokens ts = .error kind) :
    ts = [] ∧ kind = .blankRule ∨ kind = .badRuleName ∨ kind = .missingArrow ∨
      kind = .strayArrow := by
  cases ts with
  | nil =>
      cases h
      exact .inl ⟨rfl, rfl⟩
  | cons t ts =>
      right
      by_cases hword : ∃ name, t = .word name
      · obtain ⟨name, rfl⟩ := hword
        by_cases harrow : ts.head? = some .arrow
        · obtain ⟨body, rfl⟩ := List.head?_eq_some_iff.mp harrow
          by_cases hbody : .arrow ∈ body
          · rw [ofTokens_of_arrow hbody] at h
            cases h
            exact .inr (.inr rfl)
          · obtain ⟨alternatives, hstretches⟩ := exists_alternatives hbody
            rw [ofTokens_of_stretches hstretches] at h
            cases h
        · rw [ofTokens_of_no_arrow harrow] at h
          cases h
          exact .inr (.inl rfl)
      · have hhead : ∀ name, (t :: ts).head? ≠ some (.word name) :=
          fun name heq => hword ⟨name, Option.some.inj heq⟩
        rw [ofTokens_of_no_word (List.cons_ne_nil t ts) hhead] at h
        cases h
        exact .inl rfl

theorem ofTokens_ne_unclosedQuote (ts : List Token) :
    Rule.ofTokens ts ≠ .error .unclosedQuote := by
  intro h
  rcases ofTokens_eq_error h with ⟨-, hkind⟩ | hkind | hkind | hkind <;> cases hkind

end SentenceGuide.Bnf
