/-!
# Seeds

A seed leads to a script of random words for each sentence that is to be
composed.  The words walk from the seed in equal steps around the ring of 64-bit
words, and the bits of each place are mixed.
-/

namespace SentenceGuide.Seed

/-- Mixes the bits of a word. -/
def mix (word : UInt64) : UInt64 :=
  let word := (word ^^^ (word >>> 30)) * 0xbf58476d1ce4e5b9
  let word := (word ^^^ (word >>> 27)) * 0x94d049bb133111eb
  word ^^^ (word >>> 31)

/-- How far two places of a walk are apart, which is odd, so that the walk visits
every word. -/
def stride : UInt64 := 0x9e3779b97f4a7c15

/-- The first words that a seed leads to. -/
def words (seed : UInt64) (count : Nat) : List UInt64 :=
  (List.range count).map fun place => mix (seed + (place + 1).toUInt64 * stride)

/-- The seed that some bytes spell. -/
def ofBytes (bytes : List UInt8) : UInt64 :=
  bytes.foldl (fun seed byte => seed * 256 + byte.toUInt64) 0

/-- How many random words a script holds.  The words behind them are zeros. -/
def scriptLength (limit : Nat) : Nat := min (2 * limit + 64) 65536

/-- The script for the sentence at a place, which has at most `limit` tokens. -/
def script (seed : UInt64) (limit place : Nat) : List UInt64 :=
  words (mix (seed + place.toUInt64)) (scriptLength limit)

/-! ## Tests -/

example : words 0 1 = [0xe220a8397b1dcdaf] := by decide +kernel

end SentenceGuide.Seed
