/-!
# Lines

A text is cut at its newlines.  Each newline ends a line and is not part of it;
a carriage return right before it goes with it.  What stands behind the last
newline is a line of its own unless it is empty, and keeps a carriage return
at its end.  So the empty text has no line, and a text that ends in a newline
has no empty last line.

The cut is the same for characters and for bytes, so it is defined for any
type with a newline and a return.
-/

namespace SentenceGuide.Text

variable {α : Type} [DecidableEq α]

/-- What is left of a line, written backwards, once its newline has been read:
a return at its end goes too. -/
def dropReturn (ret : α) : List α → List α
  | [] => []
  | c :: line => if c = ret then line else c :: line

/-- The lines of a text, behind the start of a line already read.  That start is
written backwards. -/
def linesFrom (newline ret : α) (line : List α) : List α → List (List α)
  | [] => if line.isEmpty then [] else [line.reverse]
  | c :: cs =>
      if c = newline then (dropReturn ret line).reverse :: linesFrom newline ret [] cs
      else linesFrom newline ret (c :: line) cs

/-- The lines of a text of characters. -/
def lines (cs : List Char) : List (List Char) := linesFrom '\n' '\r' [] cs

/-- The lines of a text of bytes. -/
def byteLines (bs : List UInt8) : List (List UInt8) := linesFrom 10 13 [] bs

/-! ## Small laws -/

@[simp] theorem linesFrom_nil (newline ret : α) (line : List α) :
    linesFrom newline ret line [] = if line.isEmpty then [] else [line.reverse] := rfl

@[simp] theorem linesFrom_newline (newline ret : α) (line cs : List α) :
    linesFrom newline ret line (newline :: cs) =
      (dropReturn ret line).reverse :: linesFrom newline ret [] cs := by
  simp [linesFrom]

theorem linesFrom_cons {newline ret c : α} (line cs : List α) (h : c ≠ newline) :
    linesFrom newline ret line (c :: cs) = linesFrom newline ret (c :: line) cs := by
  simp [linesFrom, h]

/-- A text cut in two behind a newline is cut into the lines of its parts. -/
theorem linesFrom_append_newline (newline ret : α) (line cs ds : List α) :
    linesFrom newline ret line (cs ++ newline :: ds) =
      linesFrom newline ret line (cs ++ [newline]) ++ linesFrom newline ret [] ds := by
  induction cs generalizing line with
  | nil => simp
  | cons c cs ih =>
      by_cases h : c = newline
      · subst h; simp [ih]
      · simp [linesFrom_cons _ _ h, ih]

/-! ## Tests -/

example : lines [] = [] ∧ lines ['\n'] = [[]] ∧ lines ['a', '\n', '\n'] = [['a'], []] := by decide

example : lines ['a', '\r', '\n', 'b', '\r'] = [['a'], ['b', '\r']] := by decide

example : lines ['\r', '\r', '\n'] = [['\r']] := by decide

end SentenceGuide.Text
