import SentenceGuide.Text.Faceless

/-!
# Quoted texts

How a text is shown between double quotes in diagnostics and messages.  The
quote and the backslash get a backslash, the tabulator, the line ends and the
character zero have letters of their own, and a character without a face is
shown by its number in hexadecimal, as `\u{301}`.  All else stands for itself,
the single quote included.
-/

namespace SentenceGuide.Text

/-- A character as it is shown between double quotes. -/
def quoteChar (c : Char) : List Char :=
  if c = '"' ∨ c = '\\' then ['\\', c]
  else if c = '\t' then ['\\', 't']
  else if c = '\n' then ['\\', 'n']
  else if c = '\r' then ['\\', 'r']
  else if c = '\x00' then ['\\', '0']
  else if isFaceless c then ['\\', 'u', '{'] ++ Nat.toDigits 16 c.toNat ++ ['}']
  else [c]

/-- A text between double quotes. -/
def quote (s : String) : String :=
  String.ofList ('"' :: s.toList.flatMap quoteChar ++ ['"'])

/-! ## Tests -/

example : quoteChar '"' = ['\\', '"'] ∧ quoteChar '\'' = ['\''] := by decide +kernel

example : quoteChar '\x7f' = ['\\', 'u', '{', '7', 'f', '}'] := by decide +kernel

end SentenceGuide.Text
