import SentenceGuide.Source
import SentenceGuide.Text.Blank

/-!
# Logical lines

A line that ends in a backslash goes on in the next one.  White space behind the
backslash does not count.  The backslash and what stands behind it are cut off,
and the next line is joined with a space.  The logical line keeps the number of
the line it starts on.  A backslash on the last line goes on into nothing.

A line that could not be read is passed through where it stands.  It does not
end a logical line that is still open.
-/

namespace SentenceGuide.Bnf

open Text (isBlank trimStart)

/-- A line with its number.  It may not have been readable. -/
abbrev NumberedLine := Nat × Except ReadFault (List Char)

/-- Numbers lines one by one, the first of them `first`. -/
def numberFrom (first : Nat) : List (Except ReadFault (List Char)) → List NumberedLine
  | [] => []
  | line :: lines => (first, line) :: numberFrom (first + 1) lines

/-- The line in front of the backslash it ends in, if it ends in one. -/
def cutBackslash (line : List Char) : Option (List Char) :=
  match line.reverse.dropWhile isBlank with
  | '\\' :: rest => some rest.reverse
  | _ => none

/-- A logical line that is still open: its first line's number and its text so far. -/
abbrev OpenLine := Option (Nat × List Char)

/-- The open line with one more line joined to it. -/
def OpenLine.extend (number : Nat) (line : List Char) : OpenLine → Nat × List Char
  | none => (number, line)
  | some (first, text) => (first, text ++ ' ' :: line)

/-- The logical lines of some lines, behind one that may still be open. -/
def joinLines (opened : OpenLine) : List NumberedLine → List NumberedLine
  | [] =>
      match opened with
      | none => []
      | some (first, text) => [(first, .ok text)]
  | (number, .error fault) :: lines => (number, .error fault) :: joinLines opened lines
  | (number, .ok line) :: lines =>
      let (first, text) := opened.extend number line
      match cutBackslash text with
      | some kept => joinLines (some (first, kept)) lines
      | none => (first, .ok text) :: joinLines none lines

/-- Whether a logical line is a rule: it is not blank and is no comment, which
starts with a semicolon.  A line that could not be read is kept. -/
def isRuleLine : NumberedLine → Bool
  | (_, .error _) => true
  | (_, .ok text) =>
      match trimStart text with
      | [] => false
      | c :: _ => c != ';'

/-! ## Tests -/

example : joinLines none (numberFrom 1 [.ok ['a', '\\', ' '], .ok ['b'], .ok ['c', '\\']]) =
    [(1, .ok ['a', ' ', 'b']), (3, .ok ['c'])] := by cbv

example : joinLines none (numberFrom 1 [.ok ['a', '\\'], .error .notUtf8, .ok ['b']]) =
    [(2, .error .notUtf8), (1, .ok ['a', ' ', 'b'])] := by cbv

end SentenceGuide.Bnf
