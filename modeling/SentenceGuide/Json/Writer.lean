import SentenceGuide.Grammar.Basic

/-!
# Writing grammar documents

A grammar is written without blanks, each record as an object with its fields in
order.  In a text the quote and the backslash get a backslash.  Of the
characters below U+0020, five have a letter and the others are written by
number with four lower-case hexadecimal digits.  All else stands for itself.
-/

namespace SentenceGuide.Json

/-- The lower-case hexadecimal digit of a value below 16. -/
def lowerHex (n : Nat) : Char := Nat.digitChar n

/-- A character as it is written in a text. -/
def writeChar (c : Char) : List Char :=
  if c = '"' ∨ c = '\\' then ['\\', c]
  else if c = '\x08' then ['\\', 'b']
  else if c = '\x0c' then ['\\', 'f']
  else if c = '\n' then ['\\', 'n']
  else if c = '\r' then ['\\', 'r']
  else if c = '\t' then ['\\', 't']
  else if c.toNat < 0x20 then
    ['\\', 'u', '0', '0', lowerHex (c.toNat / 16), lowerHex (c.toNat % 16)]
  else [c]

/-- A text between quotes. -/
def writeText (s : String) : List Char := '"' :: s.toList.flatMap writeChar ++ ['"']

/-- A flag. -/
def writeFlag : Bool → List Char
  | true => ['t', 'r', 'u', 'e']
  | false => ['f', 'a', 'l', 's', 'e']

/-- Items between brackets, with commas between them. -/
def writeList (items : List (List Char)) : List Char :=
  '[' :: (items.intersperse [',']).flatten ++ [']']

/-- An object of two fields. -/
def writeRecord (first : String) (a : List Char) (second : String) (b : List Char) : List Char :=
  '{' :: writeText first ++ ':' :: a ++ ',' :: writeText second ++ ':' :: b ++ ['}']

/-- A symbol. -/
def writeSymbol (s : Symbol) : List Char :=
  writeRecord "text" (writeText s.text) "isTerminal" (writeFlag s.isTerminal)

/-- A production. -/
def writeProduction (p : Production) : List Char :=
  writeRecord "lhs" (writeText p.lhs) "rhs" (writeList (p.rhs.map writeSymbol))

/-- A grammar. -/
def writeGrammar (g : Grammar) : List Char :=
  writeRecord "start" (writeText g.start) "productions"
    (writeList (g.productions.map writeProduction))

/-- The document of a grammar. -/
def document (g : Grammar) : String := String.ofList (writeGrammar g)

/-! ## Tests -/

example : writeText "a\"\\\x1f\n" =
    ['"', 'a', '\\', '"', '\\', '\\', '\\', 'u', '0', '0', '1', 'f', '\\', 'n', '"'] := by
  decide +kernel

end SentenceGuide.Json
