import SentenceGuide.Json.Stream.Number
import SentenceGuide.Proofs.Streams

/-!
# Numbers of a stream

A number is read off a stream as it is read off the bytes that are left, and so is a
number that is skipped.  The byte behind it, if there is one, has arrived then.  The
digits that a stream counts are those by which less is left.
-/

namespace SentenceGuide.Json

variable {document : List UInt8} {s : Stream} {isNegative isSmall : Bool}
  {significand places : Nat} {start : Int}

/-! ## Digits -/

theorem Stream.Of.seen_of_ended (h : s.Of document) {place : Position}
    (hnext : s.next = .ended place) : s.Seen :=
  fun _ => (h.next_ended hnext).2

theorem gatherDigits_agrees (limit significand : Nat) (h : s.Of document) :
    ∃ n taken rest, Stream.gatherDigits limit significand s = (n, taken, rest) ∧
      gatherDigits limit significand s.bytes = (n, rest.bytes) ∧ rest.Of document ∧ rest.Seen ∧
      s.bytes.length = taken + rest.bytes.length := by
  fun_induction Stream.gatherDigits limit significand s with
  | case1 significand s place hended =>
      obtain ⟨-, hend⟩ := h.next_ended hended
      exact ⟨significand, 0, s, rfl, by rw [hend]; rfl, h, h.seen_of_ended hended, by simp⟩
  | case2 significand s b rest _ hbyte hdigit n taken rest' heq ih =>
      obtain ⟨hbytes, hrest⟩ := h.next_byte hbyte
      obtain ⟨n', taken', last, hx, hy, hof, hseen, hlength⟩ := ih hrest.of
      cases heq.symm.trans hx
      refine ⟨n, taken + 1, rest', rfl, ?_, hof, hseen, ?_⟩
      · rw [hbytes, gatherDigits, if_pos hdigit, hy]
      · rw [hbytes, List.length_cons, hlength]
        omega
  | case3 significand s b rest _ hbyte hdigit =>
      obtain ⟨hbytes, hrest⟩ := h.next_byte hbyte
      refine ⟨significand, 0, rest.holding b, rfl, ?_, hrest.holding, seen_holding rest b, ?_⟩
      · rw [hbytes, gatherDigits, if_neg hdigit, Stream.bytes_holding hrest.held_eq]
      · rw [hbytes, Stream.bytes_holding hrest.held_eq, Nat.zero_add]

theorem takeDigits_agrees (h : s.Of document) :
    ∃ taken rest, s.takeDigits = (taken, rest) ∧ s.bytes.dropWhile isDigit = rest.bytes ∧
      rest.Of document ∧ rest.Seen ∧ s.bytes.length = taken + rest.bytes.length := by
  fun_induction Stream.takeDigits s with
  | case1 s place hended =>
      obtain ⟨-, hend⟩ := h.next_ended hended
      exact ⟨0, s, rfl, by rw [hend]; rfl, h, h.seen_of_ended hended, by simp⟩
  | case2 s b rest _ hbyte hdigit taken rest' heq ih =>
      obtain ⟨hbytes, hrest⟩ := h.next_byte hbyte
      obtain ⟨taken', last, hx, hy, hof, hseen, hlength⟩ := ih hrest.of
      cases heq.symm.trans hx
      refine ⟨taken + 1, rest', rfl, ?_, hof, hseen, ?_⟩
      · rw [hbytes, List.dropWhile_cons_of_pos hdigit, hy]
      · rw [hbytes, List.length_cons, hlength]
        omega
  | case3 s b rest _ hbyte hdigit =>
      obtain ⟨hbytes, hrest⟩ := h.next_byte hbyte
      refine ⟨0, rest.holding b, rfl, ?_, hrest.holding, seen_holding rest b, ?_⟩
      · rw [hbytes, List.dropWhile_cons_of_neg hdigit, Stream.bytes_holding hrest.held_eq]
      · rw [hbytes, Stream.bytes_holding hrest.held_eq, Nat.zero_add]

/-! ## Numbers that are read -/

theorem realAt_agrees (h : s.Of document) (hseen : s.Seen) :
    Agrees document Stream.Seen (Stream.realAt isNegative significand start s)
      (realAt isNegative significand start s.bytes) := by
  rw [Stream.realAt, realAt]
  cases Number.Binary64.ofDecimal significand start with
  | some size => exact .ok h hseen
  | none => exact agrees_before h hseen .numberOutOfRange rfl

theorem readExponentDigits_agrees (h : s.Of document) :
    Agrees document Stream.Seen
      (Stream.readExponentDigits isNegative significand start isSmall s)
      (readExponentDigits isNegative significand start isSmall s.bytes) := by
  rw [Stream.readExponentDigits]
  obtain ⟨hnext, hbytes⟩ | ⟨b, rest, _, hnext, hbytes, hrest⟩ := h.next
  · rw [hbytes, hnext]
    exact agrees_ended .endInValue .read
  rw [hbytes, hnext, readExponentDigits]
  dsimp only
  by_cases hb : !isDigit b
  · rw [if_pos hb, if_pos hb]
    exact agrees_taken hrest.of hrest.held_eq .invalidNumber
  rw [if_neg hb, if_neg hb]
  obtain ⟨exponent, _, behind, hx, hy, hof, hseen, -⟩ :=
    gatherDigits_agrees exponentLimit (digit b) hrest.of
  rw [hx, hy]
  dsimp only
  obtain ⟨hnext', hbytes'⟩ | ⟨c, more, _, hnext', hbytes', hmore⟩ := hof.next
  · rw [hnext', hbytes']
    dsimp only
    rw [← hbytes']
    exact realAt_agrees hof hseen
  rw [hbytes', hnext']
  dsimp only
  by_cases hc : isDigit c
  · rw [if_pos hc, if_pos hc]
    by_cases hlarge : significand ≠ 0 ∧ !isSmall
    · rw [if_pos hlarge, if_pos hlarge]
      exact agrees_taken hmore.of hmore.held_eq .numberOutOfRange
    · rw [if_neg hlarge, if_neg hlarge]
      obtain ⟨taken, last, hlast, hdrop, hof', hseen', -⟩ := takeDigits_agrees hmore.of
      rw [hlast, hdrop]
      exact .ok hof' hseen'
  · rw [if_neg hc, if_neg hc, ← Stream.bytes_holding hmore.held_eq c]
    exact realAt_agrees hmore.holding (seen_holding more c)

theorem readExponent_agrees (h : s.Of document) :
    Agrees document Stream.Seen (Stream.readExponent isNegative significand start s)
      (readExponent isNegative significand start s.bytes) := by
  rw [Stream.readExponent]
  obtain ⟨hnext, hbytes⟩ | ⟨b, rest, _, hnext, hbytes, hrest⟩ := h.next
  · rw [hbytes, hnext]
    exact agrees_ended .endInValue .read
  rw [hbytes, hnext, readExponent]
  dsimp only
  by_cases hplus : b = byte '+'
  · rw [if_pos hplus, if_pos hplus]
    exact readExponentDigits_agrees hrest.of
  rw [if_neg hplus, if_neg hplus]
  by_cases hminus : b = byte '-'
  · rw [if_pos hminus, if_pos hminus]
    exact readExponentDigits_agrees hrest.of
  · rw [if_neg hminus, if_neg hminus, ← Stream.bytes_holding hrest.held_eq b]
    exact readExponentDigits_agrees hrest.holding

theorem readScale_agrees (h : s.Of document) :
    Agrees document Stream.Seen (Stream.readScale isNegative significand start s)
      (readScale isNegative significand start s.bytes) := by
  rw [Stream.readScale]
  obtain ⟨hnext, hbytes⟩ | ⟨b, rest, _, hnext, hbytes, hrest⟩ := h.next
  · rw [hnext, hbytes, readScale]
    dsimp only
    rw [← hbytes]
    exact realAt_agrees h (h.seen_of_ended hnext)
  rw [hbytes, hnext, readScale]
  dsimp only
  by_cases hb : isExponent b
  · rw [if_pos hb, if_pos hb]
    exact readExponent_agrees hrest.of
  · rw [if_neg hb, if_neg hb, ← Stream.bytes_holding hrest.held_eq b]
    exact realAt_agrees hrest.holding (seen_holding rest b)

theorem readFraction_agrees (h : s.Of document) :
    Agrees document Stream.Seen (Stream.readFraction isNegative significand start s)
      (readFraction isNegative significand start s.bytes) := by
  rw [Stream.readFraction]
  obtain ⟨hnext, hbytes⟩ | ⟨b, rest, _, hnext, hbytes, hrest⟩ := h.next
  · rw [hbytes, hnext]
    exact agrees_ended .endInValue .blamed
  rw [hbytes, hnext, readFraction]
  dsimp only
  by_cases hb : !isDigit b
  · rw [if_pos hb, if_pos hb]
    exact agrees_seen hrest .invalidNumber rfl
  rw [if_neg hb, if_neg hb, ← Stream.bytes_holding hrest.held_eq b]
  obtain ⟨n, taken, behind, hx, hy, hof, -, hlength⟩ :=
    gatherDigits_agrees significandLimit significand hrest.holding
  obtain ⟨_, last, hlast, hdrop, hof', -, -⟩ := takeDigits_agrees hof
  have htaken : ((rest.holding b).bytes.length - behind.bytes.length : Int) = taken := by omega
  rw [hx, hy]
  dsimp only
  rw [hlast, hdrop, htaken]
  exact readScale_agrees hof'

theorem wholeAt_agrees (h : s.Of document) (hseen : s.Seen) :
    Agrees document Stream.Seen (Stream.wholeAt isNegative significand places s)
      (if places ≠ 0 then realAt isNegative significand places s.bytes
        else if !isNegative then .ok (.natural significand, s.bytes)
        else if significand = 0 then .ok (.real true .zero, s.bytes)
        else if significand ≤ Nat.pow 2 63 then .ok (.negative significand, s.bytes)
        else realAt true significand 0 s.bytes) := by
  rw [Stream.wholeAt]
  split
  · exact realAt_agrees h hseen
  split
  · exact .ok h hseen
  split
  · exact .ok h hseen
  split
  · exact .ok h hseen
  · exact realAt_agrees h hseen

theorem readNumberTail_agrees (h : s.Of document) :
    Agrees document Stream.Seen (Stream.readNumberTail isNegative significand places s)
      (readNumberTail isNegative significand places s.bytes) := by
  rw [Stream.readNumberTail]
  obtain ⟨hnext, hbytes⟩ | ⟨b, rest, _, hnext, hbytes, hrest⟩ := h.next
  · rw [hnext, hbytes, readNumberTail]
    dsimp only
    rw [← hbytes]
    exact wholeAt_agrees h (h.seen_of_ended hnext)
  rw [hbytes, hnext, readNumberTail]
  dsimp only
  by_cases hpoint : b = byte '.'
  · rw [if_pos hpoint, if_pos hpoint]
    exact readFraction_agrees hrest.of
  rw [if_neg hpoint, if_neg hpoint]
  by_cases hexponent : isExponent b
  · rw [if_pos hexponent, if_pos hexponent]
    exact readExponent_agrees hrest.of
  · rw [if_neg hexponent, if_neg hexponent, ← Stream.bytes_holding hrest.held_eq b]
    exact wholeAt_agrees hrest.holding (seen_holding rest b)

theorem leadsOn_iff {bytes more : List UInt8} {c : UInt8} (h : bytes = c :: more) :
    (bytes.head?.map isDigit).getD false = true ↔ isDigit c = true := by
  rw [h]
  rfl

theorem not_leadsOn_nil {bytes : List UInt8} (h : bytes = []) :
    ¬ (bytes.head?.map isDigit).getD false = true := by
  rw [h]
  exact Bool.false_ne_true

theorem readNumber_agrees (h : s.Of document) :
    Agrees document Stream.Seen (Stream.readNumber isNegative s)
      (readNumber isNegative s.bytes) := by
  rw [Stream.readNumber]
  obtain ⟨hnext, hbytes⟩ | ⟨b, rest, _, hnext, hbytes, hrest⟩ := h.next
  · rw [hbytes, hnext]
    exact agrees_ended .endInValue .read
  rw [hbytes, hnext, readNumber]
  dsimp only
  by_cases hzero : b = byte '0'
  · rw [if_pos hzero, if_pos hzero]
    obtain ⟨hnext', hbytes'⟩ | ⟨c, more, _, hnext', hbytes', hmore⟩ := hrest.of.next
    · rw [hnext', if_neg (not_leadsOn_nil hbytes')]
      exact readNumberTail_agrees hrest.of
    rw [hnext']
    dsimp only
    by_cases hc : isDigit c
    · rw [if_pos hc, if_pos ((leadsOn_iff hbytes').mpr hc), hbytes']
      exact agrees_seen hmore .invalidNumber rfl
    · rw [if_neg hc, if_neg (mt (leadsOn_iff hbytes').mp hc), hbytes',
        ← Stream.bytes_holding hmore.held_eq c]
      exact readNumberTail_agrees hmore.holding
  rw [if_neg hzero, if_neg hzero]
  by_cases hb : isDigit b
  case neg =>
    rw [if_neg hb, if_neg hb]
    exact agrees_taken hrest.of hrest.held_eq .invalidNumber
  rw [if_pos hb, if_pos hb]
  obtain ⟨n, _, behind, hx, hy, hof, -, -⟩ :=
    gatherDigits_agrees significandLimit (digit b) hrest.of
  obtain ⟨taken, last, hlast, hdrop, hof', -, hlength⟩ := takeDigits_agrees hof
  have htaken : behind.bytes.length - last.bytes.length = taken := by omega
  rw [hx, hy]
  dsimp only
  rw [hlast, hdrop, htaken]
  exact readNumberTail_agrees hof'

/-! ## Numbers that are skipped -/

theorem skipDigits_agrees (h : s.Of document) :
    s.takeDigits.2.Of document ∧ s.takeDigits.2.Seen ∧
      skipDigits s.bytes = s.takeDigits.2.bytes := by
  obtain ⟨_, rest, hx, hy, hof, hseen, -⟩ := takeDigits_agrees h
  rw [hx]
  exact ⟨hof, hseen, hy⟩

theorem skipExponentDigits_agrees (h : s.Of document) :
    Agrees document Stream.Seen (Stream.untied s.skipExponentDigits)
      (untied (skipExponentDigits s.bytes)) := by
  rw [Stream.skipExponentDigits]
  obtain ⟨hnext, hbytes⟩ | ⟨b, rest, _, hnext, hbytes, hrest⟩ := h.next
  · rw [hbytes, hnext]
    exact agrees_ended .invalidNumber .read
  rw [hbytes, hnext, skipExponentDigits]
  dsimp only
  by_cases hb : isDigit b
  · rw [if_pos hb, if_pos hb]
    obtain ⟨hof, hseen, hskip⟩ := skipDigits_agrees hrest.of
    simp only [hskip]
    exact .ok hof hseen
  · rw [if_neg hb, if_neg hb]
    exact agrees_taken hrest.of hrest.held_eq .invalidNumber

theorem skipExponent_agrees (h : s.Of document) :
    Agrees document Stream.Seen (Stream.untied s.skipExponent)
      (untied (skipExponent s.bytes)) := by
  rw [Stream.skipExponent]
  obtain ⟨hnext, hbytes⟩ | ⟨b, rest, _, hnext, hbytes, hrest⟩ := h.next
  · rw [hbytes, hnext]
    exact agrees_ended .invalidNumber .read
  rw [hbytes, hnext, skipExponent]
  dsimp only
  by_cases hsign : b = byte '+' ∨ b = byte '-'
  · rw [if_pos hsign, if_pos hsign, Stream.untied_widen, untied_widen]
    exact skipExponentDigits_agrees hrest.of
  · rw [if_neg hsign, if_neg hsign, Stream.untied_widen, ← Stream.bytes_holding hrest.held_eq b]
    exact skipExponentDigits_agrees hrest.holding

theorem skipScale_agrees (h : s.Of document) :
    Agrees document Stream.Seen (Stream.untied s.skipScale) (untied (skipScale s.bytes)) := by
  rw [Stream.skipScale]
  obtain ⟨hnext, hbytes⟩ | ⟨b, rest, _, hnext, hbytes, hrest⟩ := h.next
  · rw [hbytes, hnext]
    exact .ok_of_eq h (h.seen_of_ended hnext) hbytes
  rw [hbytes, hnext, skipScale]
  dsimp only
  by_cases hb : isExponent b
  · rw [if_pos hb, if_pos hb, Stream.untied_widen, untied_widen]
    exact skipExponent_agrees hrest.of
  · rw [if_neg hb, if_neg hb]
    exact .ok_of_eq hrest.holding (seen_holding rest b) (Stream.bytes_holding hrest.held_eq b)

theorem skipFraction_agrees (h : s.Of document) :
    Agrees document Stream.Seen (Stream.untied s.skipFraction)
      (untied (skipFraction s.bytes)) := by
  rw [Stream.skipFraction]
  obtain ⟨hnext, hbytes⟩ | ⟨b, rest, _, hnext, hbytes, hrest⟩ := h.next
  · rw [hbytes, hnext]
    exact agrees_ended .invalidNumber .blamed
  rw [hbytes, hnext, skipFraction]
  dsimp only
  by_cases hb : isDigit b
  · rw [if_pos hb, if_pos hb, Stream.untied_widen, untied_widen]
    obtain ⟨hof, -, hskip⟩ := skipDigits_agrees hrest.of
    rw [hskip]
    exact skipScale_agrees hof
  · rw [if_neg hb, if_neg hb]
    exact agrees_seen hrest .invalidNumber rfl

theorem skipNumberTail_agrees (h : s.Of document) :
    Agrees document Stream.Seen (Stream.untied s.skipNumberTail)
      (untied (skipNumberTail s.bytes)) := by
  rw [Stream.skipNumberTail]
  obtain ⟨hnext, hbytes⟩ | ⟨b, rest, _, hnext, hbytes, hrest⟩ := h.next
  · rw [hbytes, hnext]
    exact .ok_of_eq h (h.seen_of_ended hnext) hbytes
  rw [hbytes, hnext, skipNumberTail]
  dsimp only
  by_cases hb : b = byte '.'
  · rw [if_pos hb, if_pos hb, Stream.untied_widen, untied_widen]
    exact skipFraction_agrees hrest.of
  · rw [if_neg hb, if_neg hb, Stream.untied_widen, ← Stream.bytes_holding hrest.held_eq b]
    exact skipScale_agrees hrest.holding

theorem skipNumber_agrees (h : s.Of document) :
    Agrees document Stream.Seen (Stream.untied s.skipNumber) (untied (skipNumber s.bytes)) := by
  rw [Stream.skipNumber]
  obtain ⟨hnext, hbytes⟩ | ⟨b, rest, _, hnext, hbytes, hrest⟩ := h.next
  · rw [hbytes, hnext]
    exact agrees_ended .invalidNumber .read
  rw [hbytes, hnext, skipNumber]
  dsimp only
  by_cases hzero : b = byte '0'
  · rw [if_pos hzero, if_pos hzero]
    obtain ⟨hnext', hbytes'⟩ | ⟨c, more, _, hnext', hbytes', hmore⟩ := hrest.of.next
    · rw [hnext', if_neg (not_leadsOn_nil hbytes'), Stream.untied_widen, untied_widen]
      exact skipNumberTail_agrees hrest.of
    rw [hnext']
    dsimp only
    by_cases hc : isDigit c
    · rw [if_pos hc, if_pos ((leadsOn_iff hbytes').mpr hc), hbytes']
      exact agrees_seen hmore .invalidNumber rfl
    · rw [if_neg hc, if_neg (mt (leadsOn_iff hbytes').mp hc), Stream.untied_widen, untied_widen,
        hbytes', ← Stream.bytes_holding hmore.held_eq c]
      exact skipNumberTail_agrees hmore.holding
  rw [if_neg hzero, if_neg hzero]
  by_cases hb : isDigit b
  · rw [if_pos hb, if_pos hb, Stream.untied_widen, untied_widen]
    obtain ⟨hof, -, hskip⟩ := skipDigits_agrees hrest.of
    rw [hskip]
    exact skipNumberTail_agrees hof
  · rw [if_neg hb, if_neg hb]
    exact agrees_taken hrest.of hrest.held_eq .invalidNumber

end SentenceGuide.Json
