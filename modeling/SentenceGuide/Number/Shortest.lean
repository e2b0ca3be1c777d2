import SentenceGuide.Number.Binary64

/-!
# The shortest decimal that reads back

A number of 53 bits is shown with the fewest decimal digits that still round to
it, and of those with the digits nearest to it.  The decimals that round to the
number form an interval around it, halfway to its neighbours.  The ends belong
to it exactly if the number's factor is even.

The search goes from coarse decimal grids to fine ones.  On each grid only the
two points around the number can be nearest, so two tests decide whether the
grid meets the interval.  The first grid that does gives the fewest digits.
-/

namespace SentenceGuide.Number

namespace Binary64

/-- Whether `a / b` is at most `c / d`. -/
def ratioLe (a c : Nat × Nat) : Bool := a.1 * c.2 ≤ c.1 * a.2

/-- A multiple of a power of ten, as a ratio. -/
def decimal (digits : Nat) (place : Int) : Nat × Nat :=
  if place ≥ 0 then (digits * Nat.pow 10 place.toNat, 1) else (digits, Nat.pow 10 (-place).toNat)

/-- The lower end of the interval that rounds to a number.  Below a power of two
the neighbour is nearer by half. -/
def lowerEnd (x : Binary64) : Nat × Nat :=
  let gap := if x.factor = Nat.pow 2 52 ∧ x.exponent > -1074 then 1 else 2
  shifted (4 * x.factor - gap) 1 (x.exponent - 2)

/-- The upper end of the interval that rounds to a number. -/
def upperEnd (x : Binary64) : Nat × Nat := shifted (4 * x.factor + 2) 1 (x.exponent - 2)

/-- Whether a ratio rounds to a number. -/
def roundsTo (x : Binary64) (r : Nat × Nat) : Bool :=
  if x.factor % 2 = 0 then ratioLe x.lowerEnd r && ratioLe r x.upperEnd
  else !ratioLe r x.lowerEnd && !ratioLe x.upperEnd r

/-- The digits nearest to a number on one decimal grid, if they round to it. -/
def digitsAt (x : Binary64) (place : Int) : Option Nat :=
  let scaled : Nat × Nat :=
    if place ≥ 0 then (x.ratio.1, x.ratio.2 * Nat.pow 10 place.toNat)
    else (x.ratio.1 * Nat.pow 10 (-place).toNat, x.ratio.2)
  let below := scaled.1 / scaled.2
  let rest := scaled.1 % scaled.2
  let lowFits := below != 0 && x.roundsTo (decimal below place)
  let highFits := x.roundsTo (decimal (below + 1) place)
  if lowFits && highFits then
    if 2 * rest < scaled.2 ∨ (2 * rest = scaled.2 ∧ below % 2 = 0) then some below
    else some (below + 1)
  else if lowFits then some below
  else if highFits then some (below + 1)
  else none

/-- The first grid with digits that round to a number, among some grids from a
place downwards. -/
def digitsFrom (x : Binary64) (place : Int) : Nat → Nat × Int
  | 0 => (0, place)
  | n + 1 =>
      match x.digitsAt place with
      | some digits => (digits, place)
      | none => digitsFrom x (place - 1) n

/-- The shortest digits of a number that is not zero, and the place of the last
one.  A number of 53 bits never needs more than 17 digits. -/
def shortest (x : Binary64) : Nat × Int :=
  let magnitude : Int := (x.factor.log2 : Int) + x.exponent
  digitsFrom x (magnitude * 30103 / 100000 + 2) 22

end Binary64

/-- Digits with their last one at a place, as text.  Numbers from 10^-5 up to
10^16 are written out, with at least one digit behind the point.  Others have one
digit before the point and an exponent, which always has a sign. -/
def decimalText (digits : Nat) (place : Int) : List Char :=
  let ds := Nat.toDigits 10 digits
  let before : Int := ds.length + place
  if 0 ≤ place ∧ before ≤ 16 then
    ds ++ List.replicate place.toNat '0' ++ ['.', '0']
  else if 0 < before ∧ before ≤ 16 then
    ds.take before.toNat ++ '.' :: ds.drop before.toNat
  else if -5 < before ∧ before ≤ 0 then
    ['0', '.'] ++ List.replicate (-before).toNat '0' ++ ds
  else
    let exponent := before - 1
    let point : List Char := if ds.length = 1 then [] else ['.']
    ds.take 1 ++ point ++ ds.drop 1 ++ 'e' ::
      (if exponent < 0 then ['-'] else ['+']) ++ Nat.toDigits 10 exponent.natAbs

/-- A number with a sign, as text. -/
def shownSigned (negative : Bool) (x : Binary64) : String :=
  let sign : List Char := if negative then ['-'] else []
  let body :=
    if x.factor = 0 then ['0', '.', '0']
    else decimalText x.shortest.1 x.shortest.2
  String.ofList (sign ++ body)

/-! ## Tests -/

example : (Binary64.ofDecimal 1 5).map (shownSigned false) = some "100000.0" := by decide +kernel

example : (Binary64.ofDecimal 35 (-1)).map (shownSigned true) = some "-3.5" := by decide +kernel

example : (Binary64.ofDecimal 5 (-324)).map (shownSigned false) = some "5e-324" := by
  decide +kernel

example : (Binary64.ofDecimal 18446744073709551616 0).map (shownSigned false) =
    some "1.8446744073709552e+19" := by decide +kernel

end SentenceGuide.Number
