import SentenceGuide.Proofs.Derivation
import SentenceGuide.Proofs.Productions
import SentenceGuide.Search.Configuration

/-!
# What the search can reach

A step of the search puts a token aside or replaces a name on top of the stack.
So the configurations that it reaches from a seed are the readings of the symbols
above the first sentinel of the seed (`reaches_initial_iff`).  It never looks
beneath that sentinel, since nothing follows a configuration that has one on top.

With this, what the search can find is said in terms of readings.  It finds a
token that comes to the top when all tokens entered are read, and the end of a
sentence if they can be read so that nothing is left above the sentinel.
-/

namespace SentenceGuide

open Relation (ReflTransGen)

/-! ## The two parts of a stack -/

namespace Pending

/-- The symbols above the first sentinel of a stack. -/
def above : List Pending → List Symbol
  | .symbol s :: rest => s :: above rest
  | _ => []

/-- The first sentinel of a stack and what lies beneath it. -/
def below : List Pending → List Pending
  | .symbol _ :: rest => below rest
  | rest => rest

@[simp] theorem above_sentinel (rest : List Pending) : above (.sentinel :: rest) = [] := rfl

@[simp] theorem below_sentinel (rest : List Pending) :
    below (.sentinel :: rest) = .sentinel :: rest := rfl

@[simp] theorem above_append (symbols : List Symbol) (rest : List Pending) :
    above (symbols.map .symbol ++ rest) = symbols ++ above rest := by
  induction symbols with
  | nil => rfl
  | cons s symbols ih => exact congrArg (s :: ·) ih

@[simp] theorem below_append (symbols : List Symbol) (rest : List Pending) :
    below (symbols.map .symbol ++ rest) = below rest := by
  induction symbols with
  | nil => rfl
  | cons s symbols ih => exact ih

theorem above_append_below :
    ∀ stack : List Pending, (above stack).map symbol ++ below stack = stack
  | [] => rfl
  | .sentinel :: _ => rfl
  | .symbol s :: rest => congrArg (symbol s :: ·) (above_append_below rest)

@[simp] theorem above_below : ∀ stack : List Pending, above (below stack) = []
  | [] => rfl
  | .sentinel :: _ => rfl
  | .symbol _ :: rest => above_below rest

@[simp] theorem below_below : ∀ stack : List Pending, below (below stack) = below stack
  | [] => rfl
  | .sentinel :: _ => rfl
  | .symbol _ :: rest => below_below rest

/-- A stack without a sentinel has no lower part. -/
theorem below_eq_nil_or_sentinel :
    ∀ stack : List Pending, (below stack = [] ∧ .sentinel ∉ stack) ∨
      ((∃ rest, below stack = .sentinel :: rest) ∧ .sentinel ∈ stack)
  | [] => .inl ⟨rfl, List.not_mem_nil⟩
  | .sentinel :: rest => .inr ⟨⟨rest, rfl⟩, List.mem_cons_self⟩
  | .symbol s :: rest => by
      rcases below_eq_nil_or_sentinel rest with ⟨h, hn⟩ | ⟨h, hm⟩
      · exact .inl ⟨h, by simpa using hn⟩
      · exact .inr ⟨h, List.mem_cons_of_mem _ hm⟩

theorem sentinel_mem_iff {stack : List Pending} :
    .sentinel ∈ stack ↔ ∃ rest, below stack = .sentinel :: rest := by
  rcases below_eq_nil_or_sentinel stack with ⟨h, hn⟩ | ⟨h, hm⟩
  · simp [h, hn]
  · exact ⟨fun _ => h, fun _ => hm⟩

end Pending

open Pending (above below)

namespace Configuration

variable {g : Grammar} {c d : Configuration} {seed : List Pending} {entered : List String}

/-! ## Steps -/

/-- The search puts the second configuration in when it takes the first. -/
def Follows (g : Grammar) (c d : Configuration) : Prop := d ∈ c.next g

/-- The search gets from the first configuration to the second. -/
def Reaches (g : Grammar) : Configuration → Configuration → Prop := ReflTransGen (Follows g)

theorem follows_nonterminal_iff {name : String} {rest : List Pending} {unmatched : List String} :
    Follows g ⟨.symbol (.nonterminal name) :: rest, unmatched⟩ d ↔
      ∃ p ∈ g.productions, p.lhs = name ∧ d = expand rest unmatched p := by
  rw [Follows, next, List.mem_map]
  constructor
  · rintro ⟨p, hp, rfl⟩
    obtain ⟨hp, hname⟩ := Grammar.mem_productionsFor.mp hp
    exact ⟨p, hp, hname, rfl⟩
  · rintro ⟨p, hp, hname, rfl⟩
    exact ⟨p, Grammar.mem_productionsFor.mpr ⟨hp, hname⟩, rfl⟩

theorem follows_expand {p : Production} (hp : p ∈ g.productions) (rest : List Pending)
    (unmatched : List String) :
    Follows g ⟨.symbol (.nonterminal p.lhs) :: rest, unmatched⟩ (expand rest unmatched p) :=
  follows_nonterminal_iff.mpr ⟨p, hp, rfl, rfl⟩

theorem follows_terminal_iff {t : String} {rest : List Pending} {unmatched : List String} :
    Follows g ⟨.symbol (.terminal t) :: rest, unmatched⟩ d ↔
      unmatched = t :: d.unmatched ∧ d.pending = rest := by
  cases unmatched with
  | nil =>
      constructor
      · intro h
        exact absurd h List.not_mem_nil
      · rintro ⟨h, -⟩
        cases h
  | cons token unmatched =>
      obtain ⟨pending, left⟩ := d
      rw [Follows, next]
      by_cases h : token = t
      · simp [h, and_comm, eq_comm]
      · simp [h]

theorem not_follows_nil {unmatched : List String} : ¬ Follows g ⟨[], unmatched⟩ d :=
  List.not_mem_nil

theorem not_follows_sentinel {rest : List Pending} {unmatched : List String} :
    ¬ Follows g ⟨.sentinel :: rest, unmatched⟩ d :=
  List.not_mem_nil

/-- A step reads at most one token, keeps to what lies above the sentinel and
leaves the rest of the stack alone. -/
theorem Follows.reads (h : Follows g c d) :
    ∃ tokens, c.unmatched = tokens ++ d.unmatched ∧
      g.Reads (above c.pending) tokens (above d.pending) ∧ below d.pending = below c.pending := by
  match c, h with
  | ⟨[], _⟩, h => exact absurd h not_follows_nil
  | ⟨.sentinel :: _, _⟩, h => exact absurd h not_follows_sentinel
  | ⟨.symbol (.terminal t) :: rest, unmatched⟩, h =>
      obtain ⟨rfl, rfl⟩ := follows_terminal_iff.mp h
      exact ⟨[t], rfl, .token t (.done _), rfl⟩
  | ⟨.symbol (.nonterminal name) :: rest, unmatched⟩, h =>
      obtain ⟨p, hp, rfl, rfl⟩ := follows_nonterminal_iff.mp h
      refine ⟨[], rfl, .expand hp ?_, Pending.below_append p.rhs rest⟩
      rw [expand, Pending.above_append]
      exact .done _

/-! ## Runs of steps -/

/-- Whatever the search reaches from a seed is left by a reading of the seed. -/
theorem Reaches.reads (h : Reaches g c d) :
    ∃ tokens, c.unmatched = tokens ++ d.unmatched ∧
      g.Reads (above c.pending) tokens (above d.pending) ∧ below d.pending = below c.pending := by
  induction h with
  | refl => exact ⟨[], rfl, .done _, rfl⟩
  | tail _ hs ih =>
      obtain ⟨tokens, hc, hreads, hbelow⟩ := ih
      obtain ⟨tokens', hd, hreads', hbelow'⟩ := hs.reads
      exact ⟨tokens ++ tokens', by rw [hc, hd, List.append_assoc], hreads.trans hreads',
        hbelow'.trans hbelow⟩

/-- The search follows every reading, whatever lies beneath. -/
theorem Reaches.of_reads {stack left : List Symbol} {tokens : List String}
    (h : g.Reads stack tokens left) (rest : List Pending) (unmatched : List String) :
    Reaches g ⟨stack.map .symbol ++ rest, tokens ++ unmatched⟩
      ⟨left.map .symbol ++ rest, unmatched⟩ := by
  induction h with
  | done stack => exact .refl
  | token t _ ih => exact .head (follows_terminal_iff.mpr ⟨rfl, rfl⟩) ih
  | @expand stack left tokens p hp _ ih =>
      refine .head (follows_expand hp _ _) ?_
      rw [List.map_append, List.append_assoc] at ih
      exact ih

/-- What the search reaches from a seed are the readings of the symbols above the
first sentinel. -/
theorem reaches_initial_iff :
    Reaches g (initial seed entered) c ↔
      ∃ tokens, entered = tokens ++ c.unmatched ∧
        g.Reads (above seed) tokens (above c.pending) ∧ below c.pending = below seed := by
  constructor
  · exact Reaches.reads
  · rintro ⟨tokens, rfl, hreads, hbelow⟩
    have h := Reaches.of_reads hreads (below seed) c.unmatched
    rw [Pending.above_append_below, ← hbelow, Pending.above_append_below] at h
    exact h

/-! ## What is found -/

theorem found_eq_token_iff {t : String} :
    c.found = some (.token t) ↔
      c.unmatched = [] ∧ ∃ rest, above c.pending = .terminal t :: rest := by
  match c with
  | ⟨[], _⟩ => simp [found, above]
  | ⟨.sentinel :: _, []⟩ => simp [found, above]
  | ⟨.sentinel :: _, _ :: _⟩ => simp [found]
  | ⟨.symbol (.terminal u) :: _, []⟩ => simp [found, above]
  | ⟨.symbol (.terminal u) :: _, _ :: _⟩ => simp [found]
  | ⟨.symbol (.nonterminal name) :: _, _⟩ => simp [found, above]

theorem found_eq_endOfSentence_iff :
    c.found = some .endOfSentence ↔
      c.unmatched = [] ∧ above c.pending = [] ∧ ∃ rest, below c.pending = .sentinel :: rest := by
  match c with
  | ⟨[], _⟩ => simp [found, below]
  | ⟨.sentinel :: _, []⟩ => simp [found, above, below]
  | ⟨.sentinel :: _, _ :: _⟩ => simp [found]
  | ⟨.symbol (.terminal u) :: _, []⟩ => simp [found, above]
  | ⟨.symbol (.terminal u) :: _, _ :: _⟩ => simp [found]
  | ⟨.symbol (.nonterminal name) :: _, _⟩ => simp [found, above]

/-- A token can be found just if it can come to the top when all tokens entered
have been read. -/
theorem exists_reaches_token_iff {t : String} :
    (∃ c, Reaches g (initial seed entered) c ∧ c.found = some (.token t)) ↔
      ∃ rest, g.Reads (above seed) entered (.terminal t :: rest) := by
  constructor
  · rintro ⟨c, hreach, hfound⟩
    obtain ⟨hunmatched, rest, htop⟩ := found_eq_token_iff.mp hfound
    obtain ⟨tokens, rfl, hreads, -⟩ := reaches_initial_iff.mp hreach
    rw [hunmatched, List.append_nil]
    exact ⟨rest, htop ▸ hreads⟩
  · rintro ⟨rest, hreads⟩
    have habove : above ((Symbol.terminal t :: rest).map .symbol ++ below seed) =
        .terminal t :: rest := by
      rw [Pending.above_append, Pending.above_below, List.append_nil]
    refine ⟨⟨(Symbol.terminal t :: rest).map .symbol ++ below seed, []⟩, ?_, ?_⟩
    · refine reaches_initial_iff.mpr ⟨entered, (List.append_nil _).symm, ?_, ?_⟩
      · rwa [habove]
      · rw [Pending.below_append, Pending.below_below]
    · exact found_eq_token_iff.mpr ⟨rfl, rest, habove⟩

/-- The end of a sentence can be found just if there is a sentinel and the tokens
entered can be read so that nothing is left above it. -/
theorem exists_reaches_endOfSentence_iff :
    (∃ c, Reaches g (initial seed entered) c ∧ c.found = some .endOfSentence) ↔
      .sentinel ∈ seed ∧ g.Reads (above seed) entered [] := by
  constructor
  · rintro ⟨c, hreach, hfound⟩
    obtain ⟨hunmatched, htop, hsentinel⟩ := found_eq_endOfSentence_iff.mp hfound
    obtain ⟨tokens, rfl, hreads, hbelow⟩ := reaches_initial_iff.mp hreach
    rw [hunmatched, List.append_nil]
    exact ⟨Pending.sentinel_mem_iff.mpr (hbelow ▸ hsentinel), htop ▸ hreads⟩
  · rintro ⟨hsentinel, hreads⟩
    refine ⟨⟨below seed, []⟩, ?_, ?_⟩
    · refine reaches_initial_iff.mpr ⟨entered, (List.append_nil _).symm, ?_, ?_⟩
      · rwa [Pending.above_below]
      · exact Pending.below_below seed
    · refine found_eq_endOfSentence_iff.mpr ⟨rfl, Pending.above_below seed, ?_⟩
      rw [Pending.below_below]
      exact Pending.sentinel_mem_iff.mp hsentinel

end Configuration

end SentenceGuide
