import SentenceGuide.Json.Stream.Text
import SentenceGuide.Proofs.Streams
import SentenceGuide.Proofs.TextReadings

/-!
# Texts of a stream

A text is read off a stream as it is read off the bytes that are left, and so is a text
that is skipped.  Every byte that has arrived then has been taken.

One place is said in two ways.  The fault of a text that spells no characters goes back by
as many bytes as are part of none.  A stream does that on its line, and this is the place
before those bytes, for no line ends inside a text.
-/

namespace SentenceGuide.Json

variable {document : List UInt8} {s : Stream}

/-! ## Escapes -/

theorem nextDigit_cases (h : s.Of document) :
    (s.nextDigit = .error ⟨.endInString, .after document⟩ ∧ s.bytes = []) ∨
      ∃ b rest shorter, s.nextDigit = .ok ⟨b, rest, shorter⟩ ∧ s.bytes = b :: rest.bytes ∧
        rest.Behind b document := by
  rw [Stream.nextDigit]
  obtain ⟨hnext, hbytes⟩ | ⟨b, rest, shorter, hnext, hbytes, hrest⟩ := h.next
  · exact .inl ⟨by rw [hnext], hbytes⟩
  · exact .inr ⟨b, rest, shorter, by rw [hnext], hbytes, hrest⟩

theorem readHex_agrees (h : s.Of document) :
    Agrees document Stream.Taken (Stream.untied s.readHex) (untied (readHex s.bytes)) := by
  rw [Stream.readHex]
  obtain ⟨ha, hbytes⟩ | ⟨a, rest, _, ha, hbytes, hrest⟩ := nextDigit_cases h
  · rw [hbytes, ha]
    exact agrees_ended .endInString .read
  obtain ⟨hb, hbytes'⟩ | ⟨b, rest', _, hb, hbytes', hrest'⟩ := nextDigit_cases hrest.of
  · rw [hbytes, hbytes', ha]
    simp only [hb]
    exact agrees_ended .endInString .read
  obtain ⟨hc, hbytes''⟩ | ⟨c, rest'', _, hc, hbytes'', hrest''⟩ := nextDigit_cases hrest'.of
  · rw [hbytes, hbytes', hbytes'', ha]
    simp only [hb, hc]
    exact agrees_ended .endInString .read
  obtain ⟨hd, hbytes'''⟩ | ⟨d, last, _, hd, hbytes''', hlast⟩ := nextDigit_cases hrest''.of
  · rw [hbytes, hbytes', hbytes'', hbytes''', ha]
    simp only [hb, hc, hd]
    exact agrees_ended .endInString .read
  rw [hbytes, hbytes', hbytes'', hbytes''', ha]
  simp only [hb, hc, hd, readHex]
  cases hexValue a b c d with
  | some n => exact .ok hlast.of hlast.held_eq
  | none => exact agrees_taken hlast.of hlast.held_eq .invalidEscape

theorem nextOfPair_cases (c : Char) (h : s.Of document) :
    (s.nextOfPair c = .error ⟨.endInString, .after document⟩ ∧ s.bytes = []) ∨
      ∃ b rest shorter, s.bytes = b :: rest.bytes ∧ rest.Behind b document ∧
        s.nextOfPair c =
          if b = byte c then .ok ⟨(), rest, shorter⟩ else .error (rest.fault .endOfHexEscape) := by
  rw [Stream.nextOfPair]
  obtain ⟨hnext, hbytes⟩ | ⟨b, rest, shorter, hnext, hbytes, hrest⟩ := h.next
  · exact .inl ⟨by rw [hnext], hbytes⟩
  · exact .inr ⟨b, rest, shorter, hbytes, hrest, by rw [hnext]⟩

theorem readUnits_agrees (h : s.Of document) :
    Agrees document Stream.Taken (Stream.untied s.readUnits) (untied (readUnits s.bytes)) := by
  obtain ⟨_, _, hx, hy, herror⟩ | ⟨n, rest, _, _, hx, hy, hof, hheld⟩ := (readHex_agrees h).cases
  · rw [Stream.readUnits, readUnits, hx, hy]
    exact herror.of_error
  by_cases htrailing : isTrailing n
  · simp only [Stream.readUnits, readUnits, hx, hy, if_pos htrailing]
    exact agrees_taken hof hheld .loneSurrogate
  by_cases hleading : !isLeading n
  · simp only [Stream.readUnits, readUnits, hx, hy, if_neg htrailing, if_pos hleading]
    exact .ok hof hheld
  -- Two bytes and a second unit are due now.
  obtain ⟨hpair, hbytes⟩ | ⟨b, rest', _, hbytes, hrest', hpair⟩ := nextOfPair_cases '\\' hof
  · simp only [hbytes] at hy
    simp only [Stream.readUnits, readUnits, hx, hy, if_neg htrailing, if_neg hleading, hpair]
    exact agrees_ended .endInString .read
  simp only [hbytes] at hy
  by_cases hb : b = byte '\\'
  case neg =>
    simp only [Stream.readUnits, readUnits, hx, hy, if_neg htrailing, if_neg hleading, hpair,
      if_neg hb, ne_eq, if_pos hb]
    exact agrees_taken hrest'.of hrest'.held_eq .endOfHexEscape
  obtain ⟨hletter, hbytes'⟩ | ⟨u, rest'', _, hbytes', hrest'', hletter⟩ :=
    nextOfPair_cases 'u' hrest'.of
  · simp only [hbytes'] at hy
    simp only [Stream.readUnits, readUnits, hx, hy, if_neg htrailing, if_neg hleading, hpair,
      if_pos hb, ne_eq, if_neg (not_not_intro hb), hletter]
    exact agrees_ended .endInString .read
  simp only [hbytes'] at hy
  by_cases hu : u = byte 'u'
  case neg =>
    simp only [Stream.readUnits, readUnits, hx, hy, if_neg htrailing, if_neg hleading, hpair,
      if_pos hb, ne_eq, if_neg (not_not_intro hb), hletter, if_neg hu, if_pos hu]
    exact agrees_taken hrest''.of hrest''.held_eq .endOfHexEscape
  simp only [Stream.readUnits, readUnits, hx, hy, if_neg htrailing, if_neg hleading, hpair,
    if_pos hb, ne_eq, if_neg (not_not_intro hb), hletter, if_pos hu, if_neg (not_not_intro hu)]
  obtain ⟨_, _, hx', hy', herror⟩ | ⟨n', last, _, _, hx', hy', hof', hheld'⟩ :=
    (readHex_agrees hrest''.of).cases
  · rw [hx', hy']
    exact herror.of_error
  rw [hx', hy']
  dsimp only
  by_cases htrailing' : isTrailing n'
  · rw [if_pos htrailing', if_pos htrailing']
    simp only [untied, Stream.untied, Except.map, Reading.map, Reading.widen]
    exact .ok hof' hheld'
  · rw [if_neg htrailing', if_neg htrailing']
    exact agrees_taken hof' hheld' .loneSurrogate

theorem readEscape_agrees (h : s.Of document) :
    Agrees document Stream.Taken (Stream.untied s.readEscape) (untied (readEscape s.bytes)) := by
  rw [Stream.readEscape]
  obtain ⟨hnext, hbytes⟩ | ⟨b, rest, _, hnext, hbytes, hrest⟩ := h.next
  · rw [hbytes, hnext]
    exact agrees_ended .endInString .read
  rw [hbytes, hnext, readEscape]
  dsimp only
  cases hletter : escapeLetter b with
  | some letter => exact .ok hrest.of hrest.held_eq
  | none =>
      dsimp only
      by_cases hb : b = byte 'u'
      · rw [if_pos hb, if_pos hb, Stream.untied_widen, untied_widen]
        exact readUnits_agrees hrest.of
      · rw [if_neg hb, if_neg hb]
        exact agrees_taken hrest.of hrest.held_eq .invalidEscape

/-! ## Texts that are read -/

theorem gatherText_agrees {bound : Nat} {done bytes : List UInt8} (h : s.Of document)
    (hbytes : s.bytes = bytes) (within : bytes.length ≤ bound) :
    Agrees document Stream.Taken (Stream.untied (Stream.gatherText done s))
      (untied (gatherText bound done bytes within)) := by
  fun_induction Stream.gatherText done s generalizing bytes with
  | case1 done s place hended =>
      obtain ⟨rfl, hend⟩ := h.next_ended hended
      obtain rfl : bytes = [] := hbytes.symm.trans hend
      rw [gatherText]
      exact agrees_ended .endInString .read
  | case2 done s rest _ hbyte =>
      obtain ⟨hmore, hrest⟩ := h.next_byte hbyte
      obtain rfl : bytes = _ :: rest.bytes := hbytes.symm.trans hmore
      rw [gatherText_quote]
      exact .ok hrest.of hrest.held_eq
  | case3 done s rest _ problem hescape hbyte _ =>
      obtain ⟨hmore, hrest⟩ := h.next_byte hbyte
      obtain rfl : bytes = _ :: rest.bytes := hbytes.symm.trans hmore
      obtain ⟨fault, hfault, hagrees⟩ := (readEscape_agrees hrest.of).exists_error hescape
      rw [gatherText, if_neg (by decide), if_pos rfl, hfault]
      exact hagrees.of_error
  | case4 done s rest _ escaped hescape _ hbyte _ ih =>
      obtain ⟨hmore, hrest⟩ := h.next_byte hbyte
      obtain rfl : bytes = _ :: rest.bytes := hbytes.symm.trans hmore
      obtain ⟨hof, -, _, hvalue⟩ := (readEscape_agrees hrest.of).exists_ok hescape
      rw [gatherText, if_neg (by decide), if_pos rfl, Stream.untied_widen]
      simp only [hvalue]
      exact ih hof rfl _
  | case5 done s b rest _ hbyte hquote hbackslash hcontrol =>
      obtain ⟨hmore, hrest⟩ := h.next_byte hbyte
      obtain rfl : bytes = _ :: rest.bytes := hbytes.symm.trans hmore
      rw [gatherText, if_neg hquote, if_neg hbackslash, if_pos hcontrol]
      exact agrees_taken hrest.of hrest.held_eq .controlCharacter
  | case6 done s b rest _ hbyte hquote hbackslash hcontrol ih =>
      obtain ⟨hmore, hrest⟩ := h.next_byte hbyte
      obtain rfl : bytes = _ :: rest.bytes := hbytes.symm.trans hmore
      rw [gatherText_plain ⟨hquote, hbackslash, hcontrol⟩, Stream.untied_widen]
      exact ih hrest.of rfl _

/-! ## Texts that spell no characters -/

theorem length_encodeChar_le (c : Char) : (Text.Utf8.encodeChar c).length ≤ 4 := by
  rw [Text.Utf8.encodeChar]
  split
  · exact Nat.le_add_left 1 3
  split
  · exact Nat.le_add_left 2 2
  split
  · exact Nat.le_add_left 3 1
  · exact Nat.le_refl 4

theorem Digits.length_eq {digits : List UInt8} {n : Nat} (h : Digits digits n) :
    digits.length = 4 := by
  obtain ⟨_⟩ := h
  rfl

theorem CharSpelled.length_le {c : Char} {spelling : List UInt8} (h : CharSpelled c spelling) :
    (Text.Utf8.encodeChar c).length ≤ spelling.length := by
  cases h with
  | raw _ _ _ => exact Nat.le_refl _
  | letter _ hc =>
      rw [hc]
      exact Nat.le_succ 1
  | unit hdigits _ _ =>
      refine Nat.le_trans (length_encodeChar_le _) ?_
      simp only [List.length_cons, hdigits.length_eq]
      decide
  | pair hm hn _ _ =>
      refine Nat.le_trans (length_encodeChar_le _) ?_
      simp only [List.length_cons, List.length_append, hm.length_eq, hn.length_eq]
      decide

theorem Gathered.length_le {gathered spelling : List UInt8} (h : Gathered gathered spelling) :
    gathered.length ≤ spelling.length := by
  induction h with
  | nil => exact Nat.le_refl _
  | plain _ _ ih => exact Nat.succ_le_succ ih
  | escape hspelled _ ih =>
      have := hspelled.length_le
      simp only [List.length_append] at this ⊢
      omega

theorem Plain.ne_newline {b : UInt8} (h : Plain b) : b ≠ 10 := by
  rintro rfl
  exact h.2.2 (by decide)

theorem hexDigit_ne_newline {b : UInt8} {n : Nat} (h : hexDigit b = some n) : b ≠ 10 := by
  rintro rfl
  cases h

theorem Digits.newline_not_mem {digits : List UInt8} {n : Nat} (h : Digits digits n) :
    10 ∉ digits := by
  obtain ⟨hvalue⟩ := h
  simp only [hexValue, Option.bind_eq_bind, Option.bind_eq_some_iff] at hvalue
  obtain ⟨_, ha, _, hb, _, hc, _, hd, -⟩ := hvalue
  simp only [List.mem_cons, List.not_mem_nil, or_false, not_or]
  exact ⟨(hexDigit_ne_newline ha).symm, (hexDigit_ne_newline hb).symm,
    (hexDigit_ne_newline hc).symm, (hexDigit_ne_newline hd).symm⟩

theorem CharSpelled.newline_not_mem {c : Char} {spelling : List UInt8}
    (h : CharSpelled c spelling) : 10 ∉ spelling := by
  cases h with
  | raw hquote hbackslash hcontrol =>
      intro hmem
      exact (plain_of_mem_encodeChar hquote hbackslash hcontrol hmem).ne_newline rfl
  | @letter _ b d hletter _ =>
      have hb : b ≠ 10 := by
        rintro rfl
        cases hletter
      simpa using And.intro (by decide : (10 : UInt8) ≠ byte '\\') hb.symm
  | unit hdigits _ _ =>
      have hopening : (10 : UInt8) ≠ byte '\\' ∧ (10 : UInt8) ≠ byte 'u' := by decide
      simp only [List.mem_cons, not_or]
      exact ⟨hopening.1, hopening.2, hdigits.newline_not_mem⟩
  | pair hm hn _ _ =>
      have hopening : (10 : UInt8) ≠ byte '\\' ∧ (10 : UInt8) ≠ byte 'u' := by decide
      simp only [List.mem_cons, List.mem_append, not_or]
      exact ⟨hopening.1, hopening.2, hm.newline_not_mem, hopening.1, hopening.2, hn.newline_not_mem⟩

theorem Gathered.newline_not_mem {gathered spelling : List UInt8} (h : Gathered gathered spelling) :
    10 ∉ spelling := by
  induction h with
  | nil => exact List.not_mem_nil
  | plain hb _ ih =>
      simp only [List.mem_cons, not_or]
      exact ⟨hb.ne_newline.symm, ih⟩
  | escape hspelled _ ih =>
      rw [List.mem_append, not_or]
      exact ⟨hspelled.newline_not_mem, ih⟩

theorem after_append_of_no_newline (taken : List UInt8) {more : List UInt8} (h : 10 ∉ more) :
    Position.after (taken ++ more) =
      ⟨(Position.after taken).line, (Position.after taken).column + more.length⟩ := by
  induction more generalizing taken with
  | nil =>
      rw [List.append_nil]
      rfl
  | cons b more ih =>
      rw [List.mem_cons, not_or] at h
      obtain ⟨hb, hmore⟩ := h
      have happend : taken ++ b :: more = (taken ++ [b]) ++ more := by simp
      rw [happend, ih (taken ++ [b]) hmore, after_concat, Position.next, if_neg (Ne.symm hb)]
      simp only [List.length_cons, Position.mk.injEq, true_and]
      omega

/-- The place goes back on its line by bytes that end no line. -/
theorem after_drop_last {taken more : List UInt8} {k : Nat} (h : 10 ∉ more)
    (hk : k ≤ more.length) :
    (⟨(Position.after (taken ++ more)).line, (Position.after (taken ++ more)).column - k⟩ :
      Position) = .after (taken ++ more.take (more.length - k)) := by
  have hsplit : more.take (more.length - k) ++ more.drop (more.length - k) = more :=
    List.take_append_drop _ _
  have hdropped : 10 ∉ more.drop (more.length - k) := fun hmem => h (List.mem_of_mem_drop hmem)
  have hlength : (more.drop (more.length - k)).length = k := by
    rw [List.length_drop]
    omega
  have hafter := after_append_of_no_newline (taken ++ more.take (more.length - k)) hdropped
  rw [List.append_assoc, hsplit, hlength] at hafter
  rw [hafter, Nat.add_sub_cancel]

/-- A text that spells no characters is at fault at the same place. -/
theorem place_strayFault {bytes gathered spelling : List UInt8} {rest : Stream}
    (hgathered : Gathered gathered spelling) (hsuffix : bytes <:+ document)
    (hbytes : bytes = spelling ++ byte '"' :: rest.bytes) (hrest : rest.Of document)
    (hheld : rest.held = none) :
    (Stream.strayFault rest.place gathered).place =
      (Fault.at .invalidCodePoint (strayRest bytes gathered rest.bytes)).position .stream
        document := by
  obtain ⟨taken, rfl⟩ := hsuffix
  subst hbytes
  have hstray : Text.Utf8.stray gathered ≤ (spelling ++ [byte '"']).length := by
    have := Nat.le_trans (Text.Utf8.stray_le gathered) hgathered.length_le
    rw [List.length_append]
    omega
  have hnewline : 10 ∉ spelling ++ [byte '"'] := by
    rw [List.mem_append, not_or]
    exact ⟨hgathered.newline_not_mem, by decide⟩
  have hdocument : spelling ++ byte '"' :: rest.bytes = (spelling ++ [byte '"']) ++ rest.bytes := by
    simp
  have hplace := hrest.place_eq
  rw [← Stream.bytes_of_held hheld] at hplace
  rw [hdocument] at hplace ⊢
  generalize spelling ++ [byte '"'] = more at hstray hnewline hplace ⊢
  have hbehind : (taken ++ (more ++ rest.bytes)).length - rest.bytes.length =
      (taken ++ more).length := by
    simp only [List.length_append]
    omega
  have hback : (taken ++ (more ++ rest.bytes)).length -
      (strayRest (more ++ rest.bytes) gathered rest.bytes).length =
      taken.length + (more.length - Text.Utf8.stray gathered) := by
    rw [strayRest, List.length_drop]
    simp only [List.length_append]
    omega
  rw [hbehind, ← List.append_assoc, List.take_left] at hplace
  rw [Stream.strayFault, hplace, after_drop_last hnewline hstray, Fault.at, Fault.position]
  dsimp only [Sight.extra]
  rw [Nat.add_zero, hback, List.take_length_add_append, List.take_append_of_le_length (by omega)]

theorem readText_agrees (h : s.Of document) :
    Agrees document Stream.Taken (Stream.untied s.readText) (untied (readText s.bytes)) := by
  rw [Stream.readText, readText]
  obtain ⟨_, _, hx, hy, herror⟩ | ⟨gathered, rest, _, _, hx, hy, hof, hheld⟩ :=
    (gatherText_agrees h rfl (Nat.le_refl _)).cases
  · rw [hx, hy]
    exact herror.of_error
  rw [hx, hy]
  dsimp only
  cases hdecode : Text.Utf8.decode gathered with
  | some cs => exact .ok hof hheld
  | none =>
      obtain ⟨gathered', spelling, hgathered, hvalue, hbytes⟩ := gathered_of_gatherText hy
      obtain rfl : gathered = gathered' := hvalue
      exact .error rfl (place_strayFault hgathered h.bytes_suffix hbytes hof hheld)

/-! ## Texts that are skipped -/

theorem skipEscape_agrees (h : s.Of document) :
    Agrees document Stream.Taken (Stream.untied s.skipEscape) (untied (skipEscape s.bytes)) := by
  rw [Stream.skipEscape]
  obtain ⟨hnext, hbytes⟩ | ⟨b, rest, _, hnext, hbytes, hrest⟩ := h.next
  · rw [hbytes, hnext]
    exact agrees_ended .endInString .read
  rw [hbytes, hnext, skipEscape]
  dsimp only
  cases hletter : escapeLetter b with
  | some letter => exact .ok hrest.of hrest.held_eq
  | none =>
      dsimp only
      by_cases hb : b = byte 'u'
      · rw [if_pos hb, if_pos hb]
        obtain ⟨_, _, hx, hy, herror⟩ | ⟨n, more, _, _, hx, hy, hof, hheld⟩ :=
          (readHex_agrees hrest.of).cases
        · rw [hx, hy]
          exact herror.of_error
        · rw [hx, hy]
          exact .ok hof hheld
      · rw [if_neg hb, if_neg hb]
        exact agrees_taken hrest.of hrest.held_eq .invalidEscape

theorem skipTextWithin_agrees {bound : Nat} {bytes : List UInt8} (h : s.Of document)
    (hbytes : s.bytes = bytes) (within : bytes.length ≤ bound) :
    Agrees document Stream.Taken (Stream.untied s.skipText)
      (untied (skipTextWithin bound bytes within)) := by
  fun_induction Stream.skipText s generalizing bytes with
  | case1 s place hended =>
      obtain ⟨rfl, hend⟩ := h.next_ended hended
      obtain rfl : bytes = [] := hbytes.symm.trans hend
      rw [skipTextWithin]
      exact agrees_ended .endInString .read
  | case2 s rest _ hbyte =>
      obtain ⟨hmore, hrest⟩ := h.next_byte hbyte
      obtain rfl : bytes = _ :: rest.bytes := hbytes.symm.trans hmore
      rw [skipTextWithin, if_pos rfl]
      exact .ok hrest.of hrest.held_eq
  | case3 s rest _ problem hescape hbyte _ =>
      obtain ⟨hmore, hrest⟩ := h.next_byte hbyte
      obtain rfl : bytes = _ :: rest.bytes := hbytes.symm.trans hmore
      obtain ⟨fault, hfault, hagrees⟩ := (skipEscape_agrees hrest.of).exists_error hescape
      rw [skipTextWithin, if_neg (by decide), if_pos rfl, hfault]
      exact hagrees.of_error
  | case4 s rest _ escaped hescape _ hbyte _ ih =>
      obtain ⟨hmore, hrest⟩ := h.next_byte hbyte
      obtain rfl : bytes = _ :: rest.bytes := hbytes.symm.trans hmore
      obtain ⟨hof, -, _, hvalue⟩ := (skipEscape_agrees hrest.of).exists_ok hescape
      rw [skipTextWithin, if_neg (by decide), if_pos rfl, Stream.untied_widen]
      simp only [hvalue]
      exact ih hof rfl _
  | case5 s b rest _ hbyte hquote hbackslash hcontrol =>
      obtain ⟨hmore, hrest⟩ := h.next_byte hbyte
      obtain rfl : bytes = _ :: rest.bytes := hbytes.symm.trans hmore
      rw [skipTextWithin, if_neg hquote, if_neg hbackslash, if_pos hcontrol]
      exact agrees_seen hrest .controlCharacter rfl
  | case6 s b rest _ hbyte hquote hbackslash hcontrol ih =>
      obtain ⟨hmore, hrest⟩ := h.next_byte hbyte
      obtain rfl : bytes = _ :: rest.bytes := hbytes.symm.trans hmore
      rw [skipTextWithin, if_neg hquote, if_neg hbackslash, if_neg hcontrol, Stream.untied_widen]
      exact ih hrest.of rfl _

theorem skipText_agrees (h : s.Of document) :
    Agrees document Stream.Taken (Stream.untied s.skipText) (untied (skipText s.bytes)) :=
  skipTextWithin_agrees h rfl (Nat.le_refl _)

end SentenceGuide.Json
