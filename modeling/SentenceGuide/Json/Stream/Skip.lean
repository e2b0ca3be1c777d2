import SentenceGuide.Json.Skip
import SentenceGuide.Json.Stream.Number
import SentenceGuide.Json.Stream.Text

/-!
# Skipping a value that arrives byte by byte

The walk is the same as over a document at hand, with the same phases.  What it takes off
the stream is well formed, or the place of the first fault is known.
-/

namespace SentenceGuide.Json.Stream

/-- Skips a value that is no bracket, whose first byte is `b`. -/
def skipScalar (b : UInt8) (rest : Stream) : Except Fault (Reading Unit (rest.left + 1)) :=
  if b = byte 'n' then readWord ['u', 'l', 'l'] rest
  else if b = byte 't' then readWord ['r', 'u', 'e'] rest
  else if b = byte 'f' then readWord ['a', 'l', 's', 'e'] rest
  else if b = byte '-' then (skipNumber rest).map (·.widen (Nat.le_succ rest.left))
  else if isDigit b then
    (skipNumber (rest.holding b)).map (·.widen (left_holding_le rest b))
  else if b = byte '"' then (skipText rest).map (·.widen (Nat.le_succ rest.left))
  else .error (rest.fault .expectedValue)

theorem left_lt_of_key {s rest : Stream} (h : rest.left < s.left) (key : Reading Unit rest.left)
    {more : Stream} (h' : more.left < key.rest.left) : more.left < s.left :=
  Nat.lt_trans h' (Nat.lt_trans key.shorter h)

/-- Skips the key and the colon of an item of an object. -/
def skipKey : Reader Unit := fun s =>
  match s.nextVisible with
  | .ended place => .error ⟨.endInObject, place⟩
  | .byte b rest shorter =>
      if b ≠ byte '"' then .error (rest.fault .keyMustBeString)
      else
        match skipText rest with
        | .error fault => .error fault
        | .ok key =>
            match key.rest.nextVisible with
            | .ended place => .error ⟨.endInObject, place⟩
            | .byte c more shorter' =>
                if c ≠ byte ':' then .error (more.fault .expectedColon)
                else .ok ⟨(), more, left_lt_of_key shorter key shorter'⟩

/-- The walk over a value, inside some open brackets. -/
def skipFrom (bound : Nat) : (phase : Phase) → List Bracket → (s : Stream) →
    s.left + phase.taken ≤ bound → Except Fault (Reading Unit bound)
  | .value, brackets, s, within =>
      match s.nextVisible with
      | .ended place => .error ⟨.endInValue, place⟩
      | .byte b rest shorter =>
          if b = byte '[' then
            skipFrom bound (.opened .list) brackets rest
              (by simp only [Phase.taken] at within ⊢; omega)
          else if b = byte '{' then
            skipFrom bound (.opened .object) brackets rest
              (by simp only [Phase.taken] at within ⊢; omega)
          else
            match skipScalar b rest with
            | .error fault => .error fault
            | .ok r =>
                have := r.shorter
                skipFrom bound .after brackets r.rest
                  (by simp only [Phase.taken] at within ⊢; omega)
  | .after, [], s, within => .ok ⟨(), s, within⟩
  | .after, bracket :: outer, s, within =>
      match s.nextVisible with
      | .ended place => .error ⟨bracket.ended, place⟩
      | .byte b rest shorter =>
          if b = byte ',' then
            skipFrom bound (.item bracket) outer rest
              (by simp only [Phase.taken] at within ⊢; omega)
          else if b = bracket.closer then
            skipFrom bound .after outer rest
              (by simp only [Phase.taken] at within ⊢; omega)
          else .error (rest.fault bracket.unfinished)
  | .opened bracket, brackets, s, within =>
      match s.nextVisible with
      | .ended place => .error ⟨bracket.ended, place⟩
      | .byte b rest shorter =>
          if b = bracket.closer then
            skipFrom bound .after brackets rest
              (by simp only [Phase.taken] at within ⊢; omega)
          else
            have := left_holding_le rest b
            skipFrom bound (.item bracket) brackets (rest.holding b)
              (by simp only [Phase.taken] at within ⊢; omega)
  | .item .list, brackets, s, within =>
      skipFrom bound .value (.list :: brackets) s within
  | .item .object, brackets, s, within =>
      match skipKey s with
      | .error fault => .error fault
      | .ok key =>
          have := key.shorter
          skipFrom bound .value (.object :: brackets) key.rest
            (by simp only [Phase.taken] at within ⊢; omega)
termination_by phase _ s _ => 3 * s.left + phase.rank
decreasing_by all_goals simp only [Phase.rank]; omega

/-- Skips one value. -/
def skipValue : Reader Unit := fun s =>
  skipFrom s.left .value [] s (Nat.le_refl _)

end SentenceGuide.Json.Stream
