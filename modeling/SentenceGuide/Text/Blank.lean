/-!
# White space

The characters that separate words in a rule text.  They are the 25 characters
with the `White_Space` property of the Unicode standard: five of ASCII and the
spaces and separators above it.  The zero-width characters, such as U+200B and
the byte order mark U+FEFF, are not among them.

Texts are lists of characters here, so that a reader can walk them one
character at a time and a proof can follow it.
-/

namespace SentenceGuide.Text

/-- White space: U+0009 to U+000D, the space, and the blanks above ASCII. -/
def isBlank (c : Char) : Bool :=
  let n := c.toNat
  (9 ≤ n && n ≤ 13) || n == 0x20 || n == 0x85 || n == 0xA0 || n == 0x1680 ||
    (0x2000 ≤ n && n ≤ 0x200A) || n == 0x2028 || n == 0x2029 || n == 0x202F ||
    n == 0x205F || n == 0x3000

/-- The text without the white space it starts with. -/
def trimStart (cs : List Char) : List Char := cs.dropWhile isBlank

/-- The text without the white space it ends with. -/
def trimEnd (cs : List Char) : List Char := (cs.reverse.dropWhile isBlank).reverse

/-! ## Small laws -/

theorem trimEnd_append_blank {cs : List Char} {c : Char} (h : isBlank c = true) :
    trimEnd (cs ++ [c]) = trimEnd cs := by
  simp [trimEnd, h]

theorem trimEnd_append_of_not_blank {cs : List Char} {c : Char} (h : isBlank c = false) :
    trimEnd (cs ++ [c]) = cs ++ [c] := by
  simp [trimEnd, h]

/-! ## Tests -/

example : isBlank '\u00a0' = true ∧ isBlank '\u200b' = false ∧ isBlank '\ufeff' = false := by
  decide

example : trimEnd [' ', 'a', '\t', '\u3000'] = [' ', 'a'] := by decide

end SentenceGuide.Text
