import SentenceGuide.Json.Stream.Basic
import SentenceGuide.Proofs.DocumentReaders

/-!
# A stream and the document it comes from

A stream stands in a document if what is left of it is an end of the document and its
place is behind all that has arrived (`Stream.Of`).  Taking a byte keeps that true.  So a
reader of streams can be held to the reader of the bytes that are left.  The two agree if
both give the same value and leave the same bytes, or both meet the same fault, where a
reader of a stream says where the fault is (`Agrees`).

There is one lemma for each way to go on.  A fault is in what has been taken, or the next
byte has been looked at, or the document has ended.  A byte is taken, or the next one that
is no blank is.
-/

namespace SentenceGuide.Json

variable {α β : Type} {document bytes : List UInt8} {b : UInt8} {s rest : Stream} {n m : Nat}
  {reason : Reason}

/-! ## Places -/

theorem after_concat (bytes : List UInt8) (b : UInt8) :
    Position.after (bytes ++ [b]) = (Position.after bytes).next b := by
  rw [Position.after, Position.after, Position.next, List.reverse_append, List.count_append]
  by_cases hb : b = 10
  · subst hb
    rw [if_pos rfl]
    rfl
  · have hne : (b != 10) = true := by simpa using hb
    have hcount : List.count 10 [b] = 0 := List.count_eq_zero.mpr (by simpa using Ne.symm hb)
    rw [if_neg hb, hcount, List.reverse_singleton, List.singleton_append,
      List.takeWhile_cons_of_pos (p := (· != 10)) hne, List.length_cons]

/-- One more byte has arrived. -/
theorem place_next {coming : List UInt8} {place : Position} (h : b :: coming <:+ document)
    (hplace : place = .after (document.take (document.length - (b :: coming).length))) :
    place.next b = .after (document.take (document.length - coming.length)) := by
  obtain ⟨taken, rfl⟩ := h
  have hbefore : (taken ++ b :: coming).length - (b :: coming).length = taken.length := by simp
  have hbehind : (taken ++ b :: coming).length - coming.length = (taken ++ [b]).length := by
    simp only [List.length_append, List.length_cons, List.length_nil]
    omega
  have happend : taken ++ b :: coming = (taken ++ [b]) ++ coming := by simp
  rw [hbehind, happend, List.take_left, after_concat, hplace, hbefore, List.take_left]

namespace Stream

/-! ## Streams in a document -/

/-- A stream stands in a document. -/
structure Of (s : Stream) (document : List UInt8) : Prop where
  /-- What has not been taken is the end of the document. -/
  bytes_suffix : s.bytes <:+ document
  /-- The place is behind what has arrived. -/
  place_eq : s.place = .after (document.take (document.length - s.coming.length))

/-- A stream stands in a document behind a byte. -/
structure Behind (s : Stream) (b : UInt8) (document : List UInt8) : Prop where
  /-- The byte has been taken, and no other has been looked at. -/
  held_eq : s.held = none
  /-- What follows the byte has not been taken. -/
  cons_suffix : b :: s.bytes <:+ document
  /-- The place is behind the byte. -/
  place_eq : s.place = .after (document.take (document.length - s.bytes.length))

theorem bytes_of_held (h : s.held = none) : s.bytes = s.coming := by
  rw [bytes, h]
  rfl

theorem bytes_holding (h : s.held = none) (b : UInt8) : (s.holding b).bytes = b :: s.bytes := by
  rw [bytes_of_held h]
  rfl

theorem of_start (document : List UInt8) : (start document).Of document where
  bytes_suffix := List.suffix_refl document
  place_eq := by
    have hall : document.length - (start document).coming.length = 0 := Nat.sub_self _
    rw [hall, List.take_zero]
    rfl

theorem Behind.of (h : s.Behind b document) : s.Of document where
  bytes_suffix := (List.suffix_cons b s.bytes).trans h.cons_suffix
  place_eq := by rw [h.place_eq, bytes_of_held h.held_eq]

/-- A byte that has been looked at can be left. -/
theorem Behind.holding (h : s.Behind b document) : (s.holding b).Of document where
  bytes_suffix := by
    rw [bytes_holding h.held_eq]
    exact h.cons_suffix
  place_eq := h.of.place_eq

theorem Of.next (h : s.Of document) :
    (s.next = .ended (.after document) ∧ s.bytes = []) ∨
      ∃ b rest shorter, s.next = .byte b rest shorter ∧ s.bytes = b :: rest.bytes ∧
        rest.Behind b document := by
  obtain ⟨hsuffix, hplace⟩ := h
  obtain ⟨held, coming, place⟩ := s
  cases held with
  | some b => exact .inr ⟨b, ⟨none, coming, place⟩, _, rfl, rfl, rfl, hsuffix, hplace⟩
  | none =>
      cases coming with
      | nil =>
          left
          rw [List.length_nil, Nat.sub_zero, List.take_length] at hplace
          exact ⟨congrArg Next.ended hplace, rfl⟩
      | cons b coming =>
          right
          refine ⟨b, ⟨none, coming, place.next b⟩, _, rfl, rfl, rfl, hsuffix, ?_⟩
          exact place_next hsuffix hplace

theorem Of.next_ended {place : Position} (h : s.Of document) (hnext : s.next = .ended place) :
    place = .after document ∧ s.bytes = [] := by
  obtain ⟨heq, hbytes⟩ | ⟨_, _, _, heq, _⟩ := h.next
  · cases hnext.symm.trans heq
    exact ⟨rfl, hbytes⟩
  · cases hnext.symm.trans heq

theorem Of.next_byte {shorter : rest.left < s.left} (h : s.Of document)
    (hnext : s.next = .byte b rest shorter) :
    s.bytes = b :: rest.bytes ∧ rest.Behind b document := by
  obtain ⟨heq, _⟩ | ⟨_, _, _, heq, hbytes, hrest⟩ := h.next
  · cases hnext.symm.trans heq
  · cases hnext.symm.trans heq
    exact ⟨hbytes, hrest⟩

theorem Of.nextVisible (h : s.Of document) :
    (s.nextVisible = .ended (.after document) ∧ skipBlanks s.bytes = []) ∨
      ∃ b rest shorter, s.nextVisible = .byte b rest shorter ∧
        skipBlanks s.bytes = b :: rest.bytes ∧ rest.Behind b document := by
  fun_induction Stream.nextVisible s with
  | case1 s place hended =>
      obtain ⟨rfl, hbytes⟩ := h.next_ended hended
      exact .inl ⟨rfl, by rw [hbytes]; rfl⟩
  | case2 s b rest shorter hbyte hblank ih =>
      obtain ⟨hbytes, hrest⟩ := h.next_byte hbyte
      have hskip : skipBlanks s.bytes = skipBlanks rest.bytes := by
        rw [hbytes]
        exact List.dropWhile_cons_of_pos hblank
      obtain ⟨hended, hend⟩ | ⟨c, more, _, hbyte', hmore, hbehind⟩ := ih hrest.of
      · exact .inl ⟨by rw [hended]; rfl, hskip.trans hend⟩
      · exact .inr ⟨c, more, _, by rw [hbyte']; rfl, hskip.trans hmore, hbehind⟩
  | case3 s b rest shorter hbyte hblank =>
      obtain ⟨hbytes, hrest⟩ := h.next_byte hbyte
      refine .inr ⟨b, rest, shorter, rfl, ?_, hrest⟩
      rw [hbytes]
      exact skipBlanks_visible (by simpa using hblank) _

end Stream

/-! ## Agreement -/

/-- A reading without its bound. -/
def untied (result : Except Fault (Reading α n)) : Except Fault (α × List UInt8) :=
  result.map fun r => (r.value, r.rest)

/-- A reading off a stream without its bound. -/
def Stream.untied (result : Except Stream.Fault (Stream.Reading α n)) :
    Except Stream.Fault (α × Stream) :=
  result.map fun r => (r.value, r.rest)

@[simp] theorem untied_widen (result : Except Fault (Reading α n)) (h : n ≤ m) :
    untied (result.map (·.widen h)) = untied result := by
  cases result <;> rfl

@[simp] theorem Stream.untied_widen (result : Except Stream.Fault (Stream.Reading α n))
    (h : n ≤ m) : Stream.untied (result.map (·.widen h)) = Stream.untied result := by
  cases result <;> rfl

/-- Every byte that has arrived has been taken. -/
def Stream.Taken (s : Stream) : Prop := s.held = none

/-- The next byte has arrived, if there is one. -/
def Stream.Seen (s : Stream) : Prop := s.held = none → s.bytes = []

/-- What is read off a stream agrees with what is read off its bytes, and `P` is true of
the stream that is left. -/
inductive Agrees (document : List UInt8) (P : Stream → Prop) :
    Except Stream.Fault (α × Stream) → Except Fault (α × List UInt8) → Prop where
  | ok {value : α} {s : Stream} : s.Of document → P s →
      Agrees document P (.ok (value, s)) (.ok (value, s.bytes))
  | error {problem : Stream.Fault} {fault : Fault} : problem.reason = fault.reason →
      problem.place = fault.position .stream document →
      Agrees document P (.error problem) (.error fault)

variable {P Q : Stream → Prop} {problem : Stream.Fault} {fault : Fault}

theorem Agrees.ok_of_eq {value : α} (h : s.Of document) (hP : P s) (hbytes : s.bytes = bytes) :
    Agrees document P (.ok (value, s)) (.ok (value, bytes)) :=
  hbytes ▸ .ok h hP

theorem Agrees.mono {result : Except Stream.Fault (α × Stream)}
    {result' : Except Fault (α × List UInt8)} (h : Agrees document P result result')
    (hP : ∀ s, P s → Q s) : Agrees document Q result result' := by
  cases h with
  | ok hof hrest => exact .ok hof (hP _ hrest)
  | error hreason hplace => exact .error hreason hplace

/-- A fault is the same for values of every type. -/
theorem Agrees.of_error (h : Agrees (α := α) document P (.error problem) (.error fault)) :
    Agrees (α := β) document Q (.error problem) (.error fault) := by
  cases h with
  | error hreason hplace => exact .error hreason hplace

/-- Two readings that agree are both faults, or both give the same value. -/
theorem Agrees.cases {result : Except Stream.Fault (Stream.Reading α n)}
    {result' : Except Fault (Reading α m)}
    (h : Agrees document P (Stream.untied result) (untied result')) :
    (∃ problem fault, result = .error problem ∧ result' = .error fault ∧
      Agrees (α := α) document P (.error problem) (.error fault)) ∨
    ∃ value rest hlt hlt', result = .ok ⟨value, rest, hlt⟩ ∧
      result' = .ok ⟨value, rest.bytes, hlt'⟩ ∧ rest.Of document ∧ P rest := by
  cases result with
  | error problem =>
      cases result' with
      | error fault => exact .inl ⟨problem, fault, rfl, rfl, h⟩
      | ok r => cases h
  | ok r =>
      cases result' with
      | error fault => cases h
      | ok r' =>
          obtain ⟨value, rest, hlt⟩ := r
          obtain ⟨value', rest', hlt'⟩ := r'
          cases h with
          | ok hof hrest => exact .inr ⟨value, rest, hlt, hlt', rfl, rfl, hof, hrest⟩

theorem Agrees.exists_error {result : Except Stream.Fault (Stream.Reading α n)}
    {result' : Except Fault (Reading α m)}
    (h : Agrees document P (Stream.untied result) (untied result'))
    (herror : result = .error problem) :
    ∃ fault, result' = .error fault ∧
      Agrees (α := α) document P (.error problem) (.error fault) := by
  obtain ⟨_, fault, heq, hfault, hagrees⟩ | ⟨_, _, _, _, heq, _⟩ := h.cases
  · cases herror.symm.trans heq
    exact ⟨fault, hfault, hagrees⟩
  · cases herror.symm.trans heq

theorem Agrees.exists_ok {result : Except Stream.Fault (Stream.Reading α n)}
    {result' : Except Fault (Reading α m)} {r : Stream.Reading α n}
    (h : Agrees document P (Stream.untied result) (untied result')) (hok : result = .ok r) :
    r.rest.Of document ∧ P r.rest ∧ ∃ hlt, result' = .ok ⟨r.value, r.rest.bytes, hlt⟩ := by
  obtain ⟨_, _, heq, _⟩ | ⟨_, _, _, hlt, heq, hvalue, hof, hrest⟩ := h.cases
  · cases hok.symm.trans heq
  · cases hok.symm.trans heq
    exact ⟨hof, hrest, hlt, hvalue⟩

/-- A fault in what has been taken. -/
theorem agrees_taken (h : s.Of document) (hheld : s.held = none) (reason : Reason) :
    Agrees (α := α) document P (.error (s.fault reason)) (.error (.at reason s.bytes)) := by
  refine .error rfl ?_
  rw [Stream.fault, h.place_eq, Fault.at, Fault.position, Stream.bytes_of_held hheld]
  rfl

/-- A fault before the next byte, which has been looked at. -/
theorem agrees_before (h : s.Of document) (hseen : s.Seen) (reason : Reason) {sight : Sight}
    (hsight : sight.extra .stream = 1) :
    Agrees (α := α) document P (.error (s.fault reason)) (.error ⟨reason, s.bytes, sight⟩) := by
  refine .error rfl ?_
  rw [Stream.fault, h.place_eq, Fault.position, hsight]
  have hlength := h.bytes_suffix.length_le
  obtain ⟨held, coming, place⟩ := s
  cases held with
  | some b =>
      have hcount : document.length - (b :: coming).length + 1 =
          document.length - coming.length := by
        simp only [Stream.bytes, Option.toList_some, List.singleton_append,
          List.length_cons] at hlength ⊢
        omega
      exact congrArg (fun n => Position.after (document.take n)) hcount.symm
  | none =>
      obtain rfl : coming = [] := hseen rfl
      dsimp only [Stream.bytes, Option.toList_none, List.nil_append, List.length_nil]
      rw [Nat.sub_zero, List.take_length, List.take_of_length_le (Nat.le_succ _)]

/-- A byte that is left has been looked at. -/
theorem seen_holding (s : Stream) (b : UInt8) : (s.holding b).Seen := nofun

/-- A fault at a byte that has been looked at. -/
theorem agrees_seen (h : rest.Behind b document) (reason : Reason) {sight : Sight}
    (hsight : sight.extra .stream = 1) :
    Agrees (α := α) document P (.error (rest.fault reason))
      (.error ⟨reason, b :: rest.bytes, sight⟩) := by
  rw [← Stream.bytes_holding h.held_eq b]
  exact agrees_before h.holding (seen_holding rest b) reason hsight

/-- A fault at the end of the document. -/
theorem agrees_ended (reason : Reason) (sight : Sight) :
    Agrees (α := α) document P (.error ⟨reason, .after document⟩)
      (.error ⟨reason, [], sight⟩) := by
  refine .error rfl ?_
  rw [Fault.position, List.take_of_length_le (by simp)]

/-- Two readers agree if they go on in ways that agree behind the blanks. -/
theorem agrees_visible (h : s.Of document) (hblanks : skipBlanks s.bytes = skipBlanks bytes)
    {ended : Position → Except Stream.Fault (Stream.Reading α n)}
    {byte : (b : UInt8) → (rest : Stream) → rest.left < s.left →
      Except Stream.Fault (Stream.Reading α n)}
    {ended' : skipBlanks bytes = [] → Except Fault (Reading α m)}
    {byte' : (b : UInt8) → (rest : List UInt8) → skipBlanks bytes = b :: rest →
      Except Fault (Reading α m)}
    (hended : ∀ hbytes, Agrees document P (Stream.untied (ended (.after document)))
      (untied (ended' hbytes)))
    (hbyte : ∀ b rest shorter hbytes, rest.Behind b document →
      Agrees document P (Stream.untied (byte b rest shorter))
        (untied (byte' b rest.bytes hbytes))) :
    Agrees document P
      (Stream.untied (match s.nextVisible with
        | .ended place => ended place
        | .byte b rest shorter => byte b rest shorter))
      (untied (match hbytes : skipBlanks bytes with
        | [] => ended' hbytes
        | b :: rest => byte' b rest hbytes)) := by
  obtain ⟨hnext, hbytes⟩ | ⟨b, rest, shorter, hnext, hbytes, hrest⟩ := h.nextVisible
  · rw [hnext]
    dsimp only
    split
    · exact hended _
    · next heq => cases hbytes.symm.trans (hblanks.trans heq)
  · rw [hnext]
    dsimp only
    split
    · next heq => cases hbytes.symm.trans (hblanks.trans heq)
    · next heq =>
        cases hbytes.symm.trans (hblanks.trans heq)
        exact hbyte b rest shorter heq hrest

/-- Two readers agree if they ask the same and agree whatever the answer is. -/
theorem agrees_ite {γ δ : Type} {c : Prop} [Decidable c]
    {f : γ → Except Stream.Fault (α × Stream)} {g : δ → Except Fault (α × List UInt8)}
    {x y : γ} {x' y' : δ} (hpos : c → Agrees document P (f x) (g x'))
    (hneg : ¬ c → Agrees document P (f y) (g y')) :
    Agrees document P (f (if c then x else y)) (g (if c then x' else y')) := by
  by_cases h : c
  · rw [if_pos h, if_pos h]
    exact hpos h
  · rw [if_neg h, if_neg h]
    exact hneg h

/-- The same word is read. -/
theorem readWord_agrees (word : List Char) (h : s.Of document) (hheld : s.held = none) :
    Agrees document Stream.Taken (Stream.untied (s.readWord word))
      ((readWord word s.bytes).map fun rest => ((), rest)) := by
  induction word generalizing s with
  | nil => exact .ok h hheld
  | cons c word ih =>
      rw [Stream.readWord]
      obtain ⟨hnext, hbytes⟩ | ⟨b, rest, shorter, hnext, hbytes, hrest⟩ := h.next
      · rw [hbytes, hnext]
        exact agrees_ended .endInValue .read
      · rw [hbytes, hnext, readWord]
        by_cases hb : b = byte c
        · simp only [if_pos hb, Stream.untied_widen]
          exact ih hrest.of hrest.held_eq
        · simp only [if_neg hb]
          exact agrees_taken hrest.of hrest.held_eq .expectedWord

/-- The same word is read, or is at fault. -/
theorem readWord_cases (word : List Char) (h : s.Of document) (hheld : s.held = none) :
    (∃ problem fault, s.readWord word = .error problem ∧ readWord word s.bytes = .error fault ∧
      ∀ {β : Type} {Q : Stream → Prop},
        Agrees (α := β) document Q (.error problem) (.error fault)) ∨
    ∃ rest hlt, s.readWord word = .ok ⟨(), rest, hlt⟩ ∧ readWord word s.bytes = .ok rest.bytes ∧
      rest.Of document ∧ rest.held = none := by
  have hagrees := readWord_agrees word h hheld
  cases hx : s.readWord word with
  | error problem =>
      rw [hx] at hagrees
      cases hy : readWord word s.bytes with
      | error fault =>
          rw [hy] at hagrees
          exact .inl ⟨problem, fault, rfl, rfl, hagrees.of_error⟩
      | ok more =>
          rw [hy] at hagrees
          cases hagrees
  | ok r =>
      rw [hx] at hagrees
      cases hy : readWord word s.bytes with
      | error fault =>
          rw [hy] at hagrees
          cases hagrees
      | ok more =>
          rw [hy] at hagrees
          cases hagrees with
          | ok hof hheld => exact .inr ⟨r.rest, r.shorter, rfl, rfl, hof, hheld⟩

end SentenceGuide.Json
