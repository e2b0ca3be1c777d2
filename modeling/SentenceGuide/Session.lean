import SentenceGuide.Composer

/-!
# Guided sessions

A user enters tokens one by one, takes them back, and picks among the offered
candidates.  A session holds the tokens, the grammar and the order of its
searches.  Each step changes it and may leave a note.
-/

namespace SentenceGuide

/-- What a user is working on. -/
structure Session where
  /-- The tokens entered. -/
  tokens : List String
  /-- The grammar. -/
  grammar : Grammar
  /-- The order of its searches. -/
  order : Order

/-- What a user can do. -/
inductive Session.Step where
  /-- Enters a token. -/
  | push (token : String)
  /-- Takes the last token back. -/
  | pop
  /-- Takes every token back. -/
  | clear
  /-- Derives sentences from another name. -/
  | start (name : String)
  /-- Searches in another order. -/
  | order (order : Order)
  /-- Enters the candidate at a place, counted from zero, if there is one. -/
  | pick (place : Nat)
  /-- Asks whether the tokens are a sentence. -/
  | check
  /-- Asks for the tokens as a text. -/
  | render
  deriving DecidableEq, Repr

/-- What a step leaves to be read. -/
inductive Session.Note where
  /-- Nothing. -/
  | nothing
  /-- A text. -/
  | text (text : String)
  /-- An answer. -/
  | answer (value : Bool)
  deriving DecidableEq, Repr

namespace Session

/-- A text that may be missing, as a note. -/
def Note.ofText? : Option String → Note
  | some t => .text t
  | none => .nothing

/-- A session at its beginning. -/
def begin (g : Grammar) : Session := ⟨[], g, .lifo⟩

/-- What can follow the tokens of a session. -/
def completion (s : Session) (budget : Nat) : Option Completion :=
  s.grammar.complete budget s.order s.tokens

/-- The session after a step, and the note that the step leaves. -/
def step (s : Session) (budget : Nat) : Step → Option (Session × Note)
  | .push token => some (⟨s.tokens ++ [token], s.grammar, s.order⟩, .nothing)
  | .pop => some (⟨s.tokens.dropLast, s.grammar, s.order⟩, .ofText? s.tokens.getLast?)
  | .clear => some (⟨[], s.grammar, s.order⟩, .nothing)
  | .start name => some (⟨s.tokens, s.grammar.withStart name, s.order⟩, .nothing)
  | .order order => some (⟨s.tokens, s.grammar, order⟩, .nothing)
  | .pick place => do
      let c ← s.completion budget
      match c.candidates[place]? with
      | some token => pure (⟨s.tokens ++ [token], s.grammar, s.order⟩, .text token)
      | none => pure (s, .nothing)
  | .check => do
      let c ← s.grammar.complete budget .lifo s.tokens
      pure (s, .answer c.isComplete)
  | .render => some (s, .text (SentenceGuide.render s.tokens))

end Session

end SentenceGuide
