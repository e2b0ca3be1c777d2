import Mathlib.Data.Set.Card
import SentenceGuide.Proofs.Derivation

/-!
# Counting derivations

A leftmost derivation is told by the places of the productions that it uses, one after
the other (`leftDerives_iff_exists_by`).  A production that is declared twice has two
places, and so two derivations that look alike are told apart by them.  A parse tree has
such a place at each inner node and tokens at its leaves.

Both are brought into the form of `ReadsBy`, the places that a reading uses while it puts
the tokens of a stack aside until the stack is empty.  The places of a leftmost derivation
of tokens are those of a reading (`leftDerivesBy_iff_readsBy`), and the places at the nodes
of a row of parse trees, each before those beneath it, are a reading of the row of their
symbols.  No two rows have the same places (`ParsesAll.eq_of_places_eq`), so there are as
many parse trees as leftmost derivations.
-/

namespace SentenceGuide

namespace Grammar

/-! ## Derivations by places -/

/-- A name behind terminals only is replaced by the production at a place. -/
inductive LeftStepBy (g : Grammar) : Nat → List Symbol → List Symbol → Prop where
  | replace {place : Nat} {p : Production} (before : List String) (after : List Symbol)
      (hp : g.productions[place]? = some p) :
      LeftStepBy g place (before.map .terminal ++ .nonterminal p.lhs :: after)
        (before.map .terminal ++ (p.rhs ++ after))

/-- Leftmost steps by the productions at places, one after the other. -/
inductive LeftDerivesBy (g : Grammar) : List Nat → List Symbol → List Symbol → Prop where
  /-- No step. -/
  | refl (stack : List Symbol) : LeftDerivesBy g [] stack stack
  /-- One more step in front. -/
  | head {place : Nat} {places : List Nat} {first second last : List Symbol} :
      g.LeftStepBy place first second → LeftDerivesBy g places second last →
        LeftDerivesBy g (place :: places) first last

/-- A reading that leaves nothing, with the places of the productions that it uses. -/
inductive ReadsBy (g : Grammar) : List Symbol → List String → List Nat → Prop where
  /-- Nothing is left. -/
  | done : ReadsBy g [] [] []
  /-- The terminal on top is read. -/
  | token {stack : List Symbol} {tokens : List String} {places : List Nat} (t : String) :
      ReadsBy g stack tokens places → ReadsBy g (.terminal t :: stack) (t :: tokens) places
  /-- The name on top is replaced. -/
  | expand {stack : List Symbol} {tokens : List String} {place : Nat} {places : List Nat}
      {p : Production} : g.productions[place]? = some p →
        ReadsBy g (p.rhs ++ stack) tokens places →
          ReadsBy g (.nonterminal p.lhs :: stack) tokens (place :: places)

variable {g : Grammar} {stack stack' : List Symbol} {tokens tokens' : List String}
  {places places' : List Nat} {place : Nat}

/-- A step is a step by the production at some place. -/
theorem leftStep_iff_exists_by :
    g.LeftStep stack stack' ↔ ∃ place, g.LeftStepBy place stack stack' := by
  constructor
  · rintro ⟨before, after, hp⟩
    obtain ⟨place, hp⟩ := List.mem_iff_getElem?.mp hp
    exact ⟨place, .replace before after hp⟩
  · rintro ⟨place, ⟨before, after, hp⟩⟩
    exact .replace before after (List.mem_of_getElem? hp)

/-- What is derived is derived by some places. -/
theorem leftDerives_iff_exists_by :
    g.LeftDerives stack stack' ↔ ∃ places, g.LeftDerivesBy places stack stack' := by
  constructor
  · intro h
    induction h using Relation.ReflTransGen.head_induction_on with
    | refl => exact ⟨[], .refl _⟩
    | head hs _ ih =>
        obtain ⟨place, hs⟩ := leftStep_iff_exists_by.mp hs
        obtain ⟨places, h⟩ := ih
        exact ⟨place :: places, .head hs h⟩
  · rintro ⟨places, h⟩
    induction h with
    | refl stack => exact .refl
    | head hs _ ih => exact .head (leftStep_iff_exists_by.mpr ⟨_, hs⟩) ih

theorem LeftStepBy.cons (h : g.LeftStepBy place stack stack') (t : String) :
    g.LeftStepBy place (.terminal t :: stack) (.terminal t :: stack') := by
  cases h with
  | replace before after hp =>
      simpa only [List.map_cons, List.cons_append] using LeftStepBy.replace (t :: before) after hp

theorem LeftDerivesBy.cons (h : g.LeftDerivesBy places stack stack') (t : String) :
    g.LeftDerivesBy places (.terminal t :: stack) (.terminal t :: stack') := by
  induction h with
  | refl stack => exact .refl _
  | head hs _ ih => exact .head (hs.cons t) ih

/-! ## Derivations as readings -/

theorem readsBy_nil_iff : g.ReadsBy [] tokens places ↔ tokens = [] ∧ places = [] := by
  constructor
  · rintro ⟨⟩
    exact ⟨rfl, rfl⟩
  · rintro ⟨rfl, rfl⟩
    exact .done

theorem readsBy_terminal_iff {t : String} :
    g.ReadsBy (.terminal t :: stack) tokens places ↔
      ∃ rest, tokens = t :: rest ∧ g.ReadsBy stack rest places := by
  constructor
  · rintro (_ | ⟨_, h⟩)
    exact ⟨_, rfl, h⟩
  · rintro ⟨rest, rfl, h⟩
    exact .token t h

theorem readsBy_nonterminal_iff {name : String} :
    g.ReadsBy (.nonterminal name :: stack) tokens places ↔
      ∃ place p, (g.productions[place]? = some p ∧ p.lhs = name) ∧
        ∃ rest, g.ReadsBy (p.rhs ++ stack) tokens rest ∧ places = place :: rest := by
  constructor
  · intro h
    generalize hall : Symbol.nonterminal name :: stack = all at h
    cases h with
    | done => cases hall
    | token => cases hall
    | expand hp h =>
        obtain ⟨hname, rfl⟩ := List.cons.inj hall
        exact ⟨_, _, ⟨hp, (Symbol.nonterminal.inj hname).symm⟩, _, h, rfl⟩
  · rintro ⟨place, p, ⟨hp, rfl⟩, rest, h, rfl⟩
    exact .expand hp h

theorem readsBy_terminals_iff {before : List String} :
    g.ReadsBy (before.map .terminal ++ stack) tokens places ↔
      ∃ rest, tokens = before ++ rest ∧ g.ReadsBy stack rest places := by
  induction before generalizing tokens with
  | nil => simp
  | cons t before ih =>
      rw [List.map_cons, List.cons_append, readsBy_terminal_iff]
      constructor
      · rintro ⟨_, rfl, h⟩
        obtain ⟨rest, rfl, hrest⟩ := ih.mp h
        exact ⟨rest, rfl, hrest⟩
      · rintro ⟨rest, rfl, hrest⟩
        exact ⟨before ++ rest, rfl, ih.mpr ⟨rest, rfl, hrest⟩⟩

theorem readsBy_terminals : ∀ tokens : List String, g.ReadsBy (tokens.map .terminal) tokens []
  | [] => .done
  | t :: tokens => .token t (readsBy_terminals tokens)

/-- A step in front of a reading is done when its name comes to the top. -/
theorem LeftStepBy.readsBy (hs : g.LeftStepBy place stack stack')
    (h : g.ReadsBy stack' tokens places) : g.ReadsBy stack tokens (place :: places) := by
  cases hs with
  | replace before after hp =>
      obtain ⟨rest, rfl, hrest⟩ := readsBy_terminals_iff.mp h
      exact readsBy_terminals_iff.mpr ⟨rest, rfl, .expand hp hrest⟩

/-- Leftmost derivations of tokens are readings of them, by the same places. -/
theorem leftDerivesBy_iff_readsBy :
    g.LeftDerivesBy places stack (tokens.map .terminal) ↔ g.ReadsBy stack tokens places := by
  constructor
  · intro h
    generalize htokens : tokens.map Symbol.terminal = last at h
    induction h with
    | refl stack =>
        subst htokens
        exact readsBy_terminals tokens
    | head hs _ ih => exact hs.readsBy (ih htokens)
  · intro h
    induction h with
    | done => exact .refl []
    | token t _ ih => exact ih.cons t
    | expand hp _ ih => exact .head (.replace [] _ hp) ih

theorem ReadsBy.append (h : g.ReadsBy stack tokens places)
    (h' : g.ReadsBy stack' tokens' places') :
    g.ReadsBy (stack ++ stack') (tokens ++ tokens') (places ++ places') := by
  induction h with
  | done => exact h'
  | token t _ ih => exact .token t ih
  | expand hp _ ih =>
      rw [List.append_assoc] at ih
      exact .expand hp ih

end Grammar

/-! ## Parse trees -/

/-- A tree over tokens, with the place of a production at each inner node. -/
inductive ParseTree where
  /-- A token. -/
  | leaf (token : String)
  /-- The place of a production, and what its right-hand side has become. -/
  | node (place : Nat) (children : List ParseTree)

namespace ParseTree

mutual

/-- The places at the inner nodes, each before those beneath it. -/
def places : ParseTree → List Nat
  | leaf _ => []
  | node place children => place :: placesOfAll children

/-- The places at the inner nodes of a row of trees. -/
def placesOfAll : List ParseTree → List Nat
  | [] => []
  | t :: ts => t.places ++ placesOfAll ts

end

theorem placesOfAll_append (ts ts' : List ParseTree) :
    placesOfAll (ts ++ ts') = placesOfAll ts ++ placesOfAll ts' := by
  induction ts with
  | nil => rfl
  | cons t ts ih => rw [List.cons_append, placesOfAll, placesOfAll, ih, List.append_assoc]

theorem placesOfAll_singleton (t : ParseTree) : placesOfAll [t] = t.places := List.append_nil _

end ParseTree

open ParseTree (placesOfAll)

namespace Grammar

/-- Parse trees side by side, one for each symbol of a row.  Their leaves are tokens, from
the first to the last, and the children of a node are trees for the right-hand side of the
production at its place. -/
inductive ParsesAll (g : Grammar) : List Symbol → List String → List ParseTree → Prop where
  /-- No tree for no symbol. -/
  | done : ParsesAll g [] [] []
  /-- A leaf for a terminal. -/
  | leaf {symbols : List Symbol} {tokens : List String} {trees : List ParseTree} (t : String) :
      ParsesAll g symbols tokens trees →
        ParsesAll g (.terminal t :: symbols) (t :: tokens) (.leaf t :: trees)
  /-- A node for a name. -/
  | node {symbols : List Symbol} {tokens tokens' : List String} {place : Nat} {p : Production}
      {children trees : List ParseTree} : g.productions[place]? = some p →
        ParsesAll g p.rhs tokens children → ParsesAll g symbols tokens' trees →
          ParsesAll g (.nonterminal p.lhs :: symbols) (tokens ++ tokens')
            (.node place children :: trees)

/-- A parse tree of tokens with a symbol at its root. -/
def Parses (g : Grammar) (s : Symbol) (tokens : List String) (tree : ParseTree) : Prop :=
  g.ParsesAll [s] tokens [tree]

variable {g : Grammar} {symbols symbols' : List Symbol} {tokens tokens' : List String}
  {places : List Nat} {trees trees' : List ParseTree} {s : Symbol}

/-- A row of trees for two rows of symbols is two rows of trees. -/
theorem ParsesAll.of_append (h : g.ParsesAll (symbols ++ symbols') tokens trees) :
    ∃ first second before after, tokens = first ++ second ∧ trees = before ++ after ∧
      g.ParsesAll symbols first before ∧ g.ParsesAll symbols' second after := by
  generalize hall : symbols ++ symbols' = all at h
  induction h generalizing symbols with
  | done =>
      obtain ⟨rfl, rfl⟩ := List.append_eq_nil_iff.mp hall
      exact ⟨[], [], [], [], rfl, rfl, .done, .done⟩
  | @leaf rest tokens trees t h ih =>
      cases symbols with
      | nil =>
          rw [List.nil_append] at hall
          subst hall
          exact ⟨[], _, [], _, rfl, rfl, .done, .leaf t h⟩
      | cons s symbols =>
          obtain ⟨rfl, hrest⟩ := List.cons.inj hall
          obtain ⟨first, second, before, after, rfl, rfl, hfirst, hsecond⟩ := ih hrest
          exact ⟨t :: first, second, .leaf t :: before, after, rfl, rfl, .leaf t hfirst, hsecond⟩
  | @node rest tokens tokens' place p children trees hp hchildren h _ ih =>
      cases symbols with
      | nil =>
          rw [List.nil_append] at hall
          subst hall
          exact ⟨[], _, [], _, rfl, rfl, .done, .node hp hchildren h⟩
      | cons s symbols =>
          obtain ⟨rfl, hrest⟩ := List.cons.inj hall
          obtain ⟨first, second, before, after, rfl, rfl, hfirst, hsecond⟩ := ih hrest
          exact ⟨tokens ++ first, second, .node place children :: before, after,
            (List.append_assoc _ _ _).symm, rfl, .node hp hchildren hfirst, hsecond⟩

/-- The places of parse trees are those of a reading. -/
theorem ParsesAll.readsBy (h : g.ParsesAll symbols tokens trees) :
    g.ReadsBy symbols tokens (placesOfAll trees) := by
  induction h with
  | done => exact .done
  | leaf t _ ih => exact .token t ih
  | node hp _ _ ihchildren ih => exact .expand hp (ihchildren.append ih)

/-- Every reading has parse trees. -/
theorem ReadsBy.exists_parsesAll (h : g.ReadsBy symbols tokens places) :
    ∃ trees, g.ParsesAll symbols tokens trees ∧ placesOfAll trees = places := by
  induction h with
  | done => exact ⟨[], .done, rfl⟩
  | token t _ ih =>
      obtain ⟨trees, htrees, rfl⟩ := ih
      exact ⟨.leaf t :: trees, .leaf t htrees, rfl⟩
  | @expand stack tokens place places p hp _ ih =>
      obtain ⟨trees, htrees, rfl⟩ := ih
      obtain ⟨first, second, children, rest, rfl, rfl, hchildren, hrest⟩ := htrees.of_append
      refine ⟨.node place children :: rest, .node hp hchildren hrest, ?_⟩
      rw [placesOfAll, ParseTree.places, ParseTree.placesOfAll_append]
      rfl

/-- Parse trees for the same symbols are told apart by their places, whatever else stands
behind these. -/
theorem ParsesAll.eq_of_places_eq {rest rest' : List Nat} (h : g.ParsesAll symbols tokens trees)
    (h' : g.ParsesAll symbols tokens' trees')
    (hplaces : placesOfAll trees ++ rest = placesOfAll trees' ++ rest') :
    trees = trees' ∧ rest = rest' := by
  induction h generalizing tokens' trees' rest rest' with
  | done =>
      cases h'
      exact ⟨rfl, hplaces⟩
  | leaf t _ ih =>
      cases h' with
      | leaf _ h' =>
          obtain ⟨rfl, hrest⟩ := ih h' hplaces
          exact ⟨rfl, hrest⟩
  | @node symbols tokens _ place p children trees hp _ _ ihchildren ih =>
      generalize hall : Symbol.nonterminal p.lhs :: symbols = all at h'
      cases h' with
      | done => cases hall
      | leaf => cases hall
      | node hp' hchildren' h' =>
          obtain ⟨-, rfl⟩ := List.cons.inj hall
          simp only [placesOfAll, ParseTree.places, List.cons_append, List.append_assoc,
            List.cons.injEq] at hplaces
          obtain ⟨rfl, hplaces⟩ := hplaces
          -- The place says which production it is, and so what the children are trees for.
          obtain rfl := Option.some.inj (hp.symm.trans hp')
          obtain ⟨rfl, hbehind⟩ := ihchildren hchildren' hplaces
          obtain ⟨rfl, hrest⟩ := ih h' hbehind
          exact ⟨rfl, hrest⟩

theorem ParsesAll.exists_eq_singleton (h : g.ParsesAll [s] tokens trees) :
    ∃ tree, trees = [tree] := by
  cases h with
  | leaf t h =>
      cases h
      exact ⟨_, rfl⟩
  | node _ _ h =>
      cases h
      exact ⟨_, rfl⟩

/-- The places of the parse trees of some tokens are those of the leftmost derivations of
these. -/
theorem image_places_parses (g : Grammar) (s : Symbol) (tokens : List String) :
    ParseTree.places '' {tree | g.Parses s tokens tree} =
      {places | g.LeftDerivesBy places [s] (tokens.map .terminal)} := by
  ext places
  rw [Set.mem_image, Set.mem_ofPred_eq, leftDerivesBy_iff_readsBy]
  constructor
  · rintro ⟨tree, htree, rfl⟩
    exact ParseTree.placesOfAll_singleton tree ▸ ParsesAll.readsBy htree
  · intro h
    obtain ⟨trees, htrees, rfl⟩ := h.exists_parsesAll
    obtain ⟨tree, rfl⟩ := htrees.exists_eq_singleton
    exact ⟨tree, htrees, (ParseTree.placesOfAll_singleton tree).symm⟩

theorem injOn_places_parses (g : Grammar) (s : Symbol) (tokens : List String) :
    Set.InjOn ParseTree.places {tree | g.Parses s tokens tree} := by
  intro tree htree tree' htree' hplaces
  have hall : placesOfAll [tree] ++ [] = placesOfAll [tree'] ++ [] := by
    rw [ParseTree.placesOfAll_singleton, ParseTree.placesOfAll_singleton, hplaces]
  exact (List.cons.inj (ParsesAll.eq_of_places_eq htree htree' hall).1).1

/-- There are as many parse trees as leftmost derivations. -/
theorem encard_parses (g : Grammar) (s : Symbol) (tokens : List String) :
    {tree | g.Parses s tokens tree}.encard =
      {places | g.LeftDerivesBy places [s] (tokens.map .terminal)}.encard := by
  rw [← image_places_parses, (injOn_places_parses g s tokens).encard_image]

end Grammar

end SentenceGuide
