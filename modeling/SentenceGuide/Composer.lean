import SentenceGuide.Diagnostic

/-!
# Composing sentences

A sentence is composed the way a user of the guide would: ask what can come
next, pick one, and repeat until the tokens are a sentence.  Where they already
are one, stopping is one more choice behind the candidates.

Picks come from a stream of random 64-bit words, a script and then zeros for
ever.  A pick among `n` choices multiplies a word with `n`.  The upper half of the
product is the choice.  The lower half says whether the word is accepted: it must
not be beyond the zone, which is the largest multiple of `n` that is a power of
two times `n` and fits into 64 bits, less one.  So each choice is hit by equally
many words, and a refused word is followed by the next one.  The word zero is
always accepted, so a pick ends.

A dead end is a fault, and so is a sentence that would outgrow its limit.  The
limit is only looked at when a token has been picked, so a sentence of exactly
that many tokens is not at fault.
-/

namespace SentenceGuide

/-! ## Random words -/

/-- What is left of a script of random words, and how many have been drawn. -/
structure Words where
  /-- The words that come next, before the zeros. -/
  script : List UInt64
  /-- How many have been drawn. -/
  drawn : Nat
  deriving DecidableEq, Repr

namespace Words

/-- The last lower half with which a word is accepted in a pick among `n`. -/
def zone (n : Nat) : Nat := n * Nat.pow 2 (63 - n.log2) - 1

/-- Whether a word is accepted in a pick among `n`. -/
def accepts (n : Nat) (w : UInt64) : Bool := w.toNat * n % Nat.pow 2 64 ≤ zone n

/-- The choice that a word makes among `n`. -/
def choice (n : Nat) (w : UInt64) : Nat := w.toNat * n / Nat.pow 2 64

/-- Picks among `n` from a script, of which some words have been drawn. -/
def pickFrom (n drawn : Nat) : List UInt64 → Nat × Words
  | [] => (0, ⟨[], drawn + 1⟩)
  | w :: script =>
      if accepts n w then (choice n w, ⟨script, drawn + 1⟩) else pickFrom n (drawn + 1) script

/-- Picks among `n` choices. -/
def pick (words : Words) (n : Nat) : Nat × Words := pickFrom n words.drawn words.script

end Words

/-! ## Composing -/

/-- Why no sentence was composed. -/
inductive ComposeFault where
  /-- Nothing can follow these tokens, and they are no sentence. -/
  | deadEnd (tokens : List String)
  /-- The sentence would have more tokens than its limit. -/
  | tokenLimit (limit : Nat)
  deriving DecidableEq, Repr

/-- Tokens as they are shown. -/
def render (tokens : List String) : String := " ".intercalate tokens

/-- The fault in words. -/
def ComposeFault.message : ComposeFault → String
  | deadEnd tokens =>
      let tokens := render tokens
      s!"No way to continue or finish `{tokens}`"
  | tokenLimit limit => s!"Sentence did not finish within {limit} tokens"

/-- What composing gave. -/
structure Composition where
  /-- The sentence, or why there is none. -/
  outcome : Except ComposeFault (List String)
  /-- How many choices there were at each pick. -/
  picks : List Nat
  /-- What the run tells. -/
  diagnostics : List Diagnostic
  /-- The words that are left. -/
  words : Words

/-- What composing gave behind a pick and what was told before. -/
def Composition.behind (choices : Nat) (told : List Diagnostic) (c : Composition) :
    Composition :=
  ⟨c.outcome, choices :: c.picks, told ++ c.diagnostics, c.words⟩

/-- How many choices there are: the candidates, and stopping if the tokens are a
sentence. -/
def Completion.choices (c : Completion) : Nat :=
  c.candidates.length + if c.isComplete then 1 else 0

/-- Composes a sentence behind some tokens, which has room for some more. -/
def composeFrom (g : Grammar) (budget limit : Nat) (tokens : List String) (words : Words)
    (room : Nat) : Option Composition :=
  match g.seek budget .lifo tokens with
  | none => none
  | some e =>
      let c := e.completion
      if c.isDeadEnd then some ⟨.error (.deadEnd tokens), [], e.diagnostics, words⟩
      else
        let (pick, words) := words.pick c.choices
        match c.candidates[pick]? with
        | none => some ⟨.ok tokens, [c.choices], e.diagnostics, words⟩
        | some token =>
            match room with
            | 0 => some ⟨.error (.tokenLimit limit), [c.choices], e.diagnostics, words⟩
            | room + 1 =>
                (composeFrom g budget limit (tokens ++ [token]) words room).map
                  (.behind c.choices (e.diagnostics ++ [.picked token c.choices]))

/-- Composes a sentence of at most `limit` tokens. -/
def Grammar.compose (g : Grammar) (budget limit : Nat) (words : Words) : Option Composition :=
  composeFrom g budget limit [] words limit

/-- Composes some sentences one after the other, each with the words that the one
before it has left. -/
def Grammar.composeMany (g : Grammar) (budget limit : Nat) (words : Words) :
    Nat → Option (List Composition)
  | 0 => some []
  | amount + 1 => do
      let c ← g.compose budget limit words
      let cs ← g.composeMany budget limit c.words amount
      pure (c :: cs)

/-! ## Tests -/

example : Words.zone 1 = 2 ^ 63 - 1 ∧ Words.zone 3 = 3 * 2 ^ 62 - 1 := by decide +kernel

example : (Words.mk [0x8000000000000000, 7] 0).pick 2 = (1, ⟨[7], 1⟩) := by decide +kernel

end SentenceGuide
