import Mathlib.Data.List.DropRight
import SentenceGuide.Json.Stream.Skip
import SentenceGuide.Proofs.SkippedValues
import SentenceGuide.Proofs.StreamNumbers
import SentenceGuide.Proofs.StreamTexts

/-!
# Values of a stream that are skipped

The walk over a value takes the same steps on a stream as on the bytes that are left, so
it ends behind the same byte or meets the same fault (`skipValue_agrees`).

The two differ in one point.  A bracket that has just been opened may close at once, so
blanks are passed over before its first item.  The stream has taken them then.  The walk
over the bytes goes back to them, and an item passes over them again.  So the bytes need
be the same only up to blanks, unless a value has just ended (`skipFrom_agrees`).
-/

namespace SentenceGuide.Json

variable {document bytes : List UInt8} {b : UInt8} {s rest : Stream} {bound bound' : Nat}

theorem skipBlanks_idempotent (bytes : List UInt8) :
    skipBlanks (skipBlanks bytes) = skipBlanks bytes :=
  List.dropWhile_idempotent isBlank bytes

theorem untied_skipWord (word : List Char) (bytes : List UInt8) :
    untied (skipWord word bytes) = (readWord word bytes).map fun more => ((), more) := by
  rw [skipWord]
  split
  · next h =>
      rw [h]
      rfl
  · next h =>
      simp only [h]
      rfl

theorem skipScalar_agrees (h : rest.Behind b document) :
    Agrees document (fun _ => True) (Stream.untied (Stream.skipScalar b rest))
      (untied (skipScalar b rest.bytes)) := by
  have hword : ∀ word, Agrees document (fun _ => True) (Stream.untied (rest.readWord word))
      (untied (skipWord word rest.bytes)) := by
    intro word
    rw [untied_skipWord]
    exact (readWord_agrees word h.of h.held_eq).mono fun _ _ => trivial
  refine agrees_ite (fun _ => hword _) fun _ => ?_
  refine agrees_ite (fun _ => hword _) fun _ => ?_
  refine agrees_ite (fun _ => hword _) fun _ => ?_
  refine agrees_ite (fun _ => ?_) fun _ => agrees_ite (fun _ => ?_) fun _ => ?_
  · rw [Stream.untied_widen, untied_widen]
    exact (skipNumber_agrees h.of).mono fun _ _ => trivial
  · have hnumber := skipNumber_agrees h.holding
    rw [Stream.bytes_holding h.held_eq] at hnumber
    rw [Stream.untied_widen]
    exact hnumber.mono fun _ _ => trivial
  refine agrees_ite (fun _ => ?_) fun _ => agrees_seen h .expectedValue rfl
  rw [Stream.untied_widen, untied_widen]
  exact (skipText_agrees h.of).mono fun _ _ => trivial

theorem skipKey_agrees (h : s.Of document) (hblanks : skipBlanks s.bytes = skipBlanks bytes) :
    Agrees document Stream.Taken (Stream.untied s.skipKey) (untied (skipKey bytes)) := by
  refine agrees_visible h hblanks (fun _ => agrees_ended .endInObject .blamed)
    fun b rest _ _ hrest => ?_
  refine agrees_ite (fun _ => agrees_seen hrest .keyMustBeString rfl) fun _ => ?_
  obtain ⟨_, _, hx, hy, herror⟩ | ⟨_, behind, _, _, hx, hy, hof, -⟩ :=
    (skipText_agrees hrest.of).cases
  · rw [hx, hy]
    exact herror.of_error
  rw [hx, hy]
  dsimp only
  obtain ⟨hnext, hbytes⟩ | ⟨c, more, _, hnext, hbytes, hmore⟩ := hof.nextVisible
  · rw [hnext]
    dsimp only
    split
    · exact agrees_ended .endInObject .blamed
    · next heq => cases hbytes.symm.trans heq
  rw [hnext]
  -- The bytes are taken apart with a proof that they are these, which a rewrite would break.
  by_cases hc : c ≠ byte ':'
  · simp only [if_pos hc]
    split
    · next heq => cases hbytes.symm.trans heq
    · next heq =>
        cases hbytes.symm.trans heq
        rw [if_pos hc]
        exact agrees_seen hmore .expectedColon rfl
  · simp only [if_neg hc]
    split
    · next heq => cases hbytes.symm.trans heq
    · next heq =>
        cases hbytes.symm.trans heq
        rw [if_neg hc]
        exact .ok hmore.of hmore.held_eq

theorem rank_le (phase : Phase) : phase.rank ≤ 2 := by
  cases phase <;> simp [Phase.rank]

/-- The walk takes the same steps, on the same bytes or on bytes that differ by blanks. -/
theorem skipFrom_agrees {n : Nat} {phase : Phase} {brackets : List Bracket} {s : Stream}
    {bytes : List UInt8} {within : s.left + phase.taken ≤ bound}
    {within' : bytes.length + phase.taken ≤ bound'} (hn : 3 * s.left + phase.rank < n)
    (h : s.Of document) (hblanks : skipBlanks s.bytes = skipBlanks bytes)
    (hafter : phase = .after → s.bytes = bytes) :
    Agrees document (fun _ => True) (Stream.untied (Stream.skipFrom bound phase brackets s within))
      (untied (skipFrom bound' phase brackets bytes within')) := by
  induction n generalizing phase brackets s bytes with
  | zero => exact absurd hn (Nat.not_lt_zero _)
  | succ n ih =>
      -- The steps that take a byte leave less, whatever phase comes next.
      have hnext : ∀ {phase' : Phase} {brackets' : List Bracket} {rest : Stream}
          {within : rest.left + phase'.taken ≤ bound}
          {within' : rest.bytes.length + phase'.taken ≤ bound'}, rest.left < s.left →
          rest.Of document → Agrees document (fun _ => True)
            (Stream.untied (Stream.skipFrom bound phase' brackets' rest within))
            (untied (skipFrom bound' phase' brackets' rest.bytes within')) := by
        intro phase' brackets' rest _ _ hlt hrest
        have hrank := rank_le phase'
        exact ih (by omega) hrest rfl fun _ => rfl
      cases phase with
      | value =>
          rw [Stream.skipFrom, skipFrom]
          refine agrees_visible h hblanks (fun _ => agrees_ended .endInValue .blamed)
            fun b rest hlt _ hrest => ?_
          refine agrees_ite (fun _ => hnext hlt hrest.of) fun _ => ?_
          refine agrees_ite (fun _ => hnext hlt hrest.of) fun _ => ?_
          obtain ⟨_, _, hx, hy, herror⟩ | ⟨_, behind, hbehind, _, hx, hy, hof, -⟩ :=
            (skipScalar_agrees hrest).cases
          · rw [hx, hy]
            exact herror.of_error
          · rw [hx, hy]
            exact hnext (Nat.lt_of_le_of_lt (Nat.le_of_lt_succ hbehind) hlt) hof
      | after =>
          cases brackets with
          | nil =>
              rw [Stream.skipFrom, skipFrom]
              exact .ok_of_eq h trivial (hafter rfl)
          | cons bracket outer =>
              rw [Stream.skipFrom, skipFrom]
              refine agrees_visible h hblanks (fun _ => agrees_ended _ .blamed)
                fun b rest hlt _ hrest => ?_
              refine agrees_ite (fun _ => hnext hlt hrest.of) fun _ => ?_
              exact agrees_ite (fun _ => hnext hlt hrest.of) fun _ => agrees_seen hrest _ rfl
      | opened bracket =>
          rw [Stream.skipFrom, skipFrom]
          refine agrees_visible h hblanks (fun _ => agrees_ended _ .blamed)
            fun b rest hlt hskip hrest => ?_
          refine agrees_ite (fun _ => hnext hlt hrest.of) fun _ => ?_
          -- The stream has taken the blanks, the bytes still hold them.
          have hle := Stream.left_holding_le_of_lt (b := b) hlt
          simp only [Phase.rank] at hn
          refine ih (by simp only [Phase.rank]; omega) hrest.holding ?_
            fun hafter => by cases hafter
          rw [Stream.bytes_holding hrest.held_eq, ← hskip, skipBlanks_idempotent]
      | item bracket =>
          cases bracket with
          | list =>
              rw [Stream.skipFrom, skipFrom]
              simp only [Phase.rank] at hn
              exact ih (by simp only [Phase.rank]; omega) h hblanks fun hafter => by cases hafter
          | object =>
              rw [Stream.skipFrom, skipFrom]
              obtain ⟨_, _, hx, hy, herror⟩ | ⟨_, behind, hbehind, _, hx, hy, hof, -⟩ :=
                (skipKey_agrees h hblanks).cases
              · rw [hx, hy]
                exact herror.of_error
              · rw [hx, hy]
                exact hnext hbehind hof

theorem skipValue_agrees (h : s.Of document) :
    Agrees document (fun _ => True) (Stream.untied s.skipValue) (untied (skipValue s.bytes)) :=
  skipFrom_agrees (Nat.lt_succ_self _) h rfl fun _ => rfl

end SentenceGuide.Json
