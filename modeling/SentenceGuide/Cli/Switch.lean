/-!
# Switches of a command line

A command line is a list of arguments.  At each level of it some switches are
known.  A flag stands by itself, and a valued switch has a value.

* `--name value` and `--name=value` give a value to the switch `name`.
* `-x value`, `-xvalue` and `-x=value` give one to the switch `x`.
* Flags of one letter can stand together behind one dash, and a valued switch
  can be the last of them.
* `--` ends the switches.  A lone `-` is no switch.

Names are not abbreviated.  A value that is an argument of its own cannot look
like a switch.

A value is judged when the next argument of its level has been understood, and
not when it is read.  Until then it waits.  This decides which of two outcomes
wins where a line asks for help behind a value that is no good.
-/

namespace SentenceGuide.Cli

/-- Why a command line is not carried out. -/
inductive Refusal where
  /-- It asks for help. -/
  | help
  /-- It asks for the version. -/
  | version
  /-- It is not well formed. -/
  | usage
  deriving DecidableEq, Repr

/-- The exit code of a refusal. -/
def Refusal.exitCode : Refusal → Nat
  | help | version => 0
  | usage => 2

/-- How an argument looks. -/
inductive Look where
  /-- `--`. -/
  | escape
  /-- `--name`, with what stands behind the two dashes. -/
  | long (text : List Char)
  /-- `-x`, with what stands behind the dash. -/
  | short (text : List Char)
  /-- Anything else. -/
  | plain
  deriving DecidableEq, Repr

/-- The look of an argument. -/
def look (argument : String) : Look :=
  match argument.toList with
  | ['-'] => .plain
  | ['-', '-'] => .escape
  | '-' :: '-' :: text => .long text
  | '-' :: text => .short text
  | _ => .plain

variable {σ : Type}

/-- What a switch does to the values of its level. -/
inductive Switch (σ : Type) where
  /-- A flag. -/
  | flag (set : σ → Except Refusal σ)
  /-- A switch with a value. -/
  | valued (set : String → σ → Except Refusal σ)

/-- What the last argument of a level still waits for. -/
inductive Waiting (σ : Type) where
  /-- Nothing. -/
  | nothing
  /-- Its value. -/
  | due (set : String → σ → Except Refusal σ)
  /-- To be judged. -/
  | given (set : σ → Except Refusal σ)

/-- The values of a level, and what waits. -/
structure Progress (σ : Type) where
  /-- The values judged so far. -/
  values : σ
  /-- What waits. -/
  waiting : Waiting σ

/-- The values with what waited judged.  A value that is still due is missing. -/
def Progress.settle (p : Progress σ) : Except Refusal σ :=
  match p.waiting with
  | .nothing => .ok p.values
  | .due _ => .error .usage
  | .given set => set p.values

/-- The progress of a level in which nothing waits. -/
def Progress.of (values : σ) : Progress σ := ⟨values, .nothing⟩

/-- Reads an argument behind its two dashes. -/
def Progress.readLong (find : List Char → Option (Switch σ)) (p : Progress σ)
    (text : List Char) : Except Refusal (Progress σ) :=
  let name := text.takeWhile (· != '=')
  let value := text.dropWhile (· != '=')
  match find name, value with
  | none, _ => .error .usage
  | some (.flag set), [] => do
      let values ← p.settle
      pure (.of (← set values))
  | some (.flag _), _ :: _ => .error .usage
  | some (.valued set), [] => do
      let values ← p.settle
      pure ⟨values, .due set⟩
  | some (.valued set), _ :: value => do
      let values ← p.settle
      pure (.of (← set (String.ofList value) values))

/-- Reads an argument behind its one dash. -/
def Progress.readShort (find : Char → Option (Switch σ)) (p : Progress σ) :
    List Char → Except Refusal (Progress σ)
  | [] => .ok p
  | c :: text =>
      match find c with
      | none => .error .usage
      | some (.flag set) => do
          let values ← p.settle
          let values ← set values
          Progress.readShort find (.of values) text
      | some (.valued set) => do
          let values ← p.settle
          match text with
          | [] => pure ⟨values, .due set⟩
          | '=' :: value => pure (.of (← set (String.ofList value) values))
          | value => pure (.of (← set (String.ofList value) values))

/-! ## Numbers -/

/-- The value of a text of decimal digits, which must not be empty. -/
def decimalDigits (text : List Char) : Option Nat :=
  if text.isEmpty || !text.all Char.isDigit then none
  else some (text.foldl (fun n c => n * 10 + (c.toNat - 48)) 0)

/-- A natural number below a limit.  A plus sign may stand in front. -/
def naturalBelow (limit : Nat) (text : String) : Option Nat :=
  let digits :=
    match text.toList with
    | '+' :: digits => digits
    | digits => digits
  (decimalDigits digits).filter (· < limit)

/-- An integer from zero up to a limit.  A plus sign may stand in front, and a
minus sign in front of zero. -/
def integerBelow (limit : Nat) (text : String) : Option Nat :=
  match text.toList with
  | '-' :: digits => (decimalDigits digits).filter (· = 0)
  | _ => naturalBelow limit text

/-! ## Tests -/

example : look "-" = .plain ∧ look "--" = .escape ∧ look "-x" = .short ['x'] := by decide +kernel

example : naturalBelow 10 "+007" = some 7 ∧ naturalBelow 10 "10" = none ∧
    naturalBelow 10 "-0" = none ∧ integerBelow 10 "-0" = some 0 ∧ naturalBelow 10 "" = none := by
  decide +kernel

end SentenceGuide.Cli
