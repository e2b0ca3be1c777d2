/-!
# Numbers of 53 bits

The finite numbers of the 64-bit binary floating point format that are not
negative.  Each is a natural number below 2^53 times a power of two that is at
least 2^-1074, and is below 2^1024.  A sign is kept elsewhere.

An exact ratio is rounded to the nearest such number.  Of two that are equally
near, the one with the even factor is taken.  There is none for a ratio that
would round to 2^1024 or more.
-/

namespace SentenceGuide.Number

/-- A number `factor * 2 ^ exponent`. -/
structure Binary64 where
  /-- The factor, below 2^53. -/
  factor : Nat
  /-- The exponent, from -1074 to 971. -/
  exponent : Int
  deriving DecidableEq, Repr

/-- A quotient rounded to the nearest natural number, a tie to the even one. -/
def roundedQuotient (num den : Nat) : Nat :=
  let quotient := num / den
  let rest := num % den
  if 2 * rest > den ∨ (2 * rest = den ∧ quotient % 2 = 1) then quotient + 1 else quotient

/-- A ratio times a power of two, as a ratio. -/
def shifted (num den : Nat) (exponent : Int) : Nat × Nat :=
  if exponent ≥ 0 then (num * Nat.pow 2 exponent.toNat, den)
  else (num, den * Nat.pow 2 (-exponent).toNat)

namespace Binary64

/-- Zero. -/
def zero : Binary64 := ⟨0, -1074⟩

/-- The number as a ratio. -/
def ratio (x : Binary64) : Nat × Nat := shifted x.factor 1 x.exponent

/-- The number nearest to a ratio, unless the ratio is too large. -/
def ofRatio (num den : Nat) : Option Binary64 :=
  if num = 0 then some zero
  else
    let guess : Int := (num.log2 : Int) - (den.log2 : Int) - 52
    let scaled := shifted num den (-guess)
    let exponent := max (if scaled.1 < scaled.2 * Nat.pow 2 52 then guess - 1 else guess) (-1074)
    let scaled := shifted num den (-exponent)
    let factor := roundedQuotient scaled.1 scaled.2
    let x : Binary64 :=
      if factor = Nat.pow 2 53 then ⟨Nat.pow 2 52, exponent + 1⟩ else ⟨factor, exponent⟩
    if x.exponent > 971 then none else some x

/-- The product, rounded. -/
def mul (x y : Binary64) : Option Binary64 :=
  ofRatio (x.ratio.1 * y.ratio.1) (x.ratio.2 * y.ratio.2)

/-- The quotient by a number that is not zero, rounded. -/
def div (x y : Binary64) : Option Binary64 :=
  ofRatio (x.ratio.1 * y.ratio.2) (x.ratio.2 * y.ratio.1)

/-- The number nearest to a power of ten that is within range. -/
def tenTo (n : Nat) : Binary64 := (ofRatio (Nat.pow 10 n) 1).getD zero

/-- Divides by a power of ten, in steps of 308 decimal places, each of which
rounds. -/
def divTenTo (n : Nat) (x : Binary64) : Option Binary64 :=
  if n ≤ 308 then x.div (tenTo n)
  else if x.factor = 0 then some x
  else (x.div (tenTo 308)).bind (divTenTo (n - 308))
termination_by n

/-- A significand times a power of ten.  The significand is rounded first, then
the product or the quotient.  Nothing that is too large has a value. -/
def ofDecimal (significand : Nat) (exponent : Int) : Option Binary64 :=
  (ofRatio significand 1).bind fun x =>
    if exponent < 0 then divTenTo (-exponent).toNat x
    else if exponent ≤ 308 then x.mul (tenTo exponent.toNat)
    else if x.factor = 0 then some zero
    else none

/-! ## Tests -/

example : ofDecimal 1 5 = some ⟨100000 * 2 ^ 36, -36⟩ := by decide +kernel

example : ofDecimal 1 309 = none ∧ ofDecimal 0 400 = some zero ∧ ofDecimal 18 307 = none := by
  decide +kernel

example : ofDecimal 5 (-324) = some ⟨1, -1074⟩ ∧ ofDecimal 1 (-400) = some zero := by
  decide +kernel

end Binary64

end SentenceGuide.Number
