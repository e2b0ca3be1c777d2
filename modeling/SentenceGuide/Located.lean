import SentenceGuide.Path

/-!
# Faults with a place

A location is a file and a line of it, counted from one.  Line zero stands for
the whole file.  Two locations are the same if their paths have the same
components and their lines are equal, even if the paths are spelled apart.

A located fault is shown on one line, its place in bright red and the fault in
bold behind it.
-/

namespace SentenceGuide

/-- Where a fault is. -/
structure Location where
  /-- The path of the file, as it was given. -/
  file : String
  /-- The line, from one, or zero for the whole file. -/
  line : Nat
  deriving DecidableEq, Repr

namespace Location

/-- A whole file. -/
def ofFile (file : String) : Location := ⟨file, 0⟩

/-- Whether two locations are the same place. -/
def same (a b : Location) : Bool := Path.same a.file b.file && a.line == b.line

/-- The path, and the line behind a colon unless the whole file is meant. -/
def shown (place : Location) : String :=
  if place.line = 0 then place.file else s!"{place.file}:{place.line}"

end Location

/-- A fault and its place. -/
structure Located (ε : Type) where
  /-- The place. -/
  location : Location
  /-- The fault. -/
  fault : ε
  deriving DecidableEq, Repr

/-- A located fault as it is reported, given the words for the fault. -/
def Located.shown {ε : Type} (message : ε → String) (e : Located ε) : String :=
  let place := e.location.shown
  let words := message e.fault
  s!"\x1b[31;49;1m[{place}]\x1b[39;49;1m  {words}\x1b[0m"

end SentenceGuide
