import SentenceGuide.Proofs.TextSpellings

/-!
# Texts that are read have been spelled

What is read between quotes is a spelling of the text that reading gives
(`outcome_readText_iff`).  Reading gathers bytes, though, and not characters.  A byte that
stands for itself may be a part of a character only, and an escape gives the bytes of a
character at once.  Since the first byte of a character is unlike those that follow it, no
character is put together from an escape and other bytes.  So the bytes that are gathered
fall into characters where their spellings do (`Gathered.textSpelled`).

Skipping asks less of a text: each of its escapes is well formed (`outcome_skipText_iff`).
-/

namespace SentenceGuide.Json

open Text.Utf8 (encodeChar encode decodeChar)

variable {b d : UInt8} {c : Char} {cs : List Char} {n bound : Nat}
  {bytes rest spelling gathered tail more done : List UInt8}

/-! ## Bytes of characters -/

/-- A byte that follows the first one of a character. -/
def Continues (b : UInt8) : Prop := 0x80 ≤ b.toNat ∧ b.toNat < 0xC0

theorem toNat_byte (h : n < 0x100) : n.toUInt8.toNat = n := UInt8.toNat_ofNat_of_lt' h

theorem continues_continuation (n : Nat) : Continues (Text.Utf8.continuation n) := by
  rw [Continues, Text.Utf8.continuation, toNat_byte (by omega)]
  omega

/-- Of the bytes of a character just the first one follows no other. -/
theorem continues_of_encodeChar (h : encodeChar c = b :: tail) :
    ¬ Continues b ∧ ∀ t ∈ tail, Continues t := by
  have hc : c.toNat < 0x110000 := by
    rcases c.valid with h | h
    · exact Nat.lt_trans h (by decide)
    · exact h.2
  have hfirst : ∀ m, m < 0x100 → (m < 0x80 ∨ 0xC0 ≤ m) → ¬ Continues m.toUInt8 := by
    intro m hlt hm hcontinues
    rw [Continues, toNat_byte hlt] at hcontinues
    omega
  rw [encodeChar] at h
  split at h
  · cases h
    exact ⟨hfirst _ (by omega) (by omega), List.forall_mem_nil _⟩
  · split at h
    · cases h
      refine ⟨hfirst _ (by omega) (by omega), ?_⟩
      simp only [List.mem_cons, List.not_mem_nil, or_false, forall_eq]
      exact continues_continuation _
    · split at h
      · cases h
        refine ⟨hfirst _ (by omega) (by omega), ?_⟩
        simp only [List.mem_cons, List.not_mem_nil, or_false, forall_eq_or_imp, forall_eq]
        exact ⟨continues_continuation _, continues_continuation _⟩
      · cases h
        refine ⟨hfirst _ (by omega) (by omega), ?_⟩
        simp only [List.mem_cons, List.not_mem_nil, or_false, forall_eq_or_imp, forall_eq]
        exact ⟨continues_continuation _, continues_continuation _, continues_continuation _⟩

/-- The bytes of a character tell where they end. -/
theorem encodeChar_append_inj {c' : Char} {more' : List UInt8}
    (h : encodeChar c ++ more = encodeChar c' ++ more') : c = c' ∧ more = more' := by
  obtain ⟨first, tail, hc, hread⟩ := Text.Utf8.decodeChar_encodeChar c more
  obtain ⟨first', tail', hc', hread'⟩ := Text.Utf8.decodeChar_encodeChar c' more'
  rw [hc, hc', List.cons_append, List.cons_append] at h
  obtain ⟨rfl, htail⟩ := List.cons.inj h
  rw [htail, hread'] at hread
  cases hread
  exact ⟨rfl, rfl⟩

theorem exists_encodeChar_of_escapeLetter (h : escapeLetter b = some d) :
    ∃ c, encodeChar c = [d] := by
  rw [escapeLetter] at h
  split at h
  · next hb =>
      cases h
      rcases hb with rfl | rfl | rfl
      · exact ⟨'"', rfl⟩
      · exact ⟨'\\', rfl⟩
      · exact ⟨'/', rfl⟩
  split at h
  · cases h
    exact ⟨'\x08', rfl⟩
  split at h
  · cases h
    exact ⟨'\x0c', rfl⟩
  split at h
  · cases h
    exact ⟨'\n', rfl⟩
  split at h
  · cases h
    exact ⟨'\r', rfl⟩
  split at h
  · cases h
    exact ⟨'\t', rfl⟩
  · cases h

/-! ## Escapes that are read -/

theorem digits_of_readHex (h : outcome readHex bytes = .ok (n, rest)) :
    ∃ digits, Digits digits n ∧ bytes = digits ++ rest := by
  rw [outcome] at h
  obtain _ | ⟨a, _ | ⟨b, _ | ⟨c, _ | ⟨d, more⟩⟩⟩⟩ := bytes
  · cases h
  · cases h
  · cases h
  · cases h
  rw [readHex] at h
  cases hvalue : hexValue a b c d with
  | none =>
      simp only [hvalue] at h
      cases h
  | some n =>
      simp only [hvalue] at h
      cases h
      exact ⟨[a, b, c, d], .four hvalue, rfl⟩

theorem outcome_of_eq_ok {α : Type} {read : Reader α} {r : Reading α bytes.length}
    (h : read bytes = .ok r) : outcome read bytes = .ok (r.value, r.rest) := by
  rw [outcome, h]
  rfl

/-- What is read behind `\\u` is a unit that stands by itself, or two that are a pair. -/
theorem units_of_readUnits (h : outcome readUnits bytes = .ok (gathered, rest)) :
    (∃ digits n, Digits digits n ∧ isLeading n = false ∧ isTrailing n = false ∧
      gathered = encodeChar (Char.ofNat n) ∧ bytes = digits ++ rest) ∨
    ∃ leading trailing m n, Digits leading m ∧ Digits trailing n ∧ isLeading m = true ∧
      isTrailing n = true ∧ gathered = encodeChar (pairedChar m n) ∧
      bytes = leading ++ byte '\\' :: byte 'u' :: (trailing ++ rest) := by
  obtain ⟨_, h⟩ := outcome_eq_ok_iff.mp h
  rw [readUnits] at h
  split at h
  · cases h
  rename_i first hfirst
  obtain ⟨digits, hdigits, hbytes⟩ := digits_of_readHex (outcome_of_eq_ok hfirst)
  split at h
  · cases h
  rename_i htrailing
  have htrailing : isTrailing first.value = false := Bool.not_eq_true _ ▸ htrailing
  split at h
  · next hleading =>
      cases h
      exact .inl ⟨digits, _, hdigits, by simpa using hleading, htrailing, rfl, hbytes⟩
  rename_i hleading
  have hleading : isLeading first.value = true := by simpa using hleading
  split at h
  · cases h
  rename_i b more hmore
  split at h
  · cases h
  rename_i hb
  split at h
  · cases h
  rename_i u behind
  split at h
  · cases h
  rename_i hu
  split at h
  · cases h
  rename_i second hsecond
  split at h
  · next hpair =>
      obtain ⟨digits', hdigits', hrest⟩ := digits_of_readHex (outcome_of_eq_ok hsecond)
      simp only [Reading.map, Reading.widen, Except.ok.injEq, Reading.mk.injEq] at h
      obtain ⟨rfl, rfl⟩ := h
      right
      refine ⟨digits, digits', _, _, hdigits, hdigits', hleading, hpair, rfl, ?_⟩
      rw [hbytes, hmore, Decidable.not_not.mp hb, Decidable.not_not.mp hu, ← hrest]
  · cases h

/-- What is read behind a backslash is a character that is spelled with it. -/
theorem charSpelled_of_readEscape (h : outcome readEscape bytes = .ok (gathered, rest)) :
    ∃ c spelling, gathered = encodeChar c ∧ bytes = spelling ++ rest ∧
      CharSpelled c (byte '\\' :: spelling) := by
  cases bytes with
  | nil => cases h
  | cons b bytes =>
      cases hletter : escapeLetter b with
      | some letter =>
          rw [outcome_readEscape_letter hletter] at h
          cases h
          obtain ⟨c, hc⟩ := exists_encodeChar_of_escapeLetter hletter
          exact ⟨c, [b], hc.symm, rfl, .letter hletter hc⟩
      | none =>
          by_cases hb : b = byte 'u'
          · subst hb
            have hunits : outcome readUnits bytes = .ok (gathered, rest) := by
              rw [outcome, readEscape] at h
              simp only [hletter, if_true] at h
              rw [outcome, ← h]
              cases readUnits bytes <;> rfl
            rcases units_of_readUnits hunits with
              ⟨digits, n, hdigits, hleading, htrailing, hgathered, rfl⟩ |
                ⟨leading, trailing, m, n, hm, hn, hleading, htrailing, hgathered, rfl⟩
            · exact ⟨Char.ofNat n, byte 'u' :: digits, hgathered, rfl,
                .unit hdigits hleading htrailing⟩
            · refine ⟨pairedChar m n, byte 'u' :: (leading ++ byte '\\' :: byte 'u' :: trailing),
                hgathered, ?_, .pair hm hn hleading htrailing⟩
              simp
          · rw [outcome, readEscape] at h
            simp only [hletter] at h
            rw [if_neg hb] at h
            cases h

/-! ## Texts that are read -/

/-- The bytes that are gathered from a spelling, some of them from escapes. -/
inductive Gathered : List UInt8 → List UInt8 → Prop where
  | nil : Gathered [] []
  | plain {b : UInt8} {gathered spelling : List UInt8} : Plain b → Gathered gathered spelling →
      Gathered (b :: gathered) (b :: spelling)
  | escape {c : Char} {gathered escape spelling : List UInt8} :
      CharSpelled c (byte '\\' :: escape) → Gathered gathered spelling →
      Gathered (encodeChar c ++ gathered) (byte '\\' :: escape ++ spelling)

theorem gathered_of_gatherText {within : bytes.length ≤ bound} {r : Reading (List UInt8) bound}
    (h : gatherText bound done bytes within = .ok r) :
    ∃ gathered spelling, Gathered gathered spelling ∧ r.value = done.reverse ++ gathered ∧
      bytes = spelling ++ byte '"' :: r.rest := by
  fun_induction gatherText bound done bytes within with
  | case1 => cases h
  | case2 done rest within =>
      cases h
      exact ⟨[], [], .nil, by simp, rfl⟩
  | case3 => cases h
  | case4 done rest escaped hescape _ _ _ _ ih =>
      obtain ⟨gathered, spelling, hgathered, hvalue, hrest⟩ := ih h
      obtain ⟨c, escape, hc, hbytes, hspelled⟩ :=
        charSpelled_of_readEscape (outcome_of_eq_ok hescape)
      refine ⟨_, _, .escape hspelled hgathered, ?_, ?_⟩
      · rw [hvalue, hc]
        simp
      · rw [hbytes, hrest]
        simp
  | case5 => cases h
  | case6 done b rest _ hquote hbackslash hcontrol _ ih =>
      obtain ⟨gathered, spelling, hgathered, hvalue, hrest⟩ := ih h
      refine ⟨_, _, .plain ⟨hquote, hbackslash, hcontrol⟩ hgathered, ?_, ?_⟩
      · rw [hvalue]
        simp
      · rw [hrest]
        rfl

/-- Bytes that follow others in a character have been gathered as they are. -/
theorem Gathered.continues (h : Gathered (tail ++ gathered) spelling)
    (htail : ∀ t ∈ tail, Continues t) :
    ∃ behind, spelling = tail ++ behind ∧ Gathered gathered behind := by
  induction tail generalizing spelling with
  | nil => exact ⟨spelling, rfl, h⟩
  | cons t tail ih =>
      obtain ⟨ht, htail⟩ := List.forall_mem_cons.mp htail
      generalize hall : t :: tail ++ gathered = all at h
      cases h with
      | nil => cases hall
      | plain _ hmore =>
          cases hall
          obtain ⟨behind, rfl, hbehind⟩ := ih hmore htail
          exact ⟨behind, rfl, hbehind⟩
      | @escape c _ _ _ _ _ =>
          -- An escape gives a first byte, and this one follows others.
          obtain ⟨first, others, hc, -⟩ := Text.Utf8.decodeChar_encodeChar c []
          rw [hc, List.cons_append, List.cons_append] at hall
          rw [(List.cons.inj hall).1] at ht
          exact absurd ht (continues_of_encodeChar hc).1

/-- A character whose first byte stands for itself stands for itself. -/
theorem charSpelled_raw (hb : Plain b) (h : encodeChar c = b :: tail) :
    CharSpelled c (b :: tail) := by
  have hbyte : ∀ a : Char, encodeChar a = [byte a] → c = a → b = byte a := by
    rintro a ha rfl
    rw [ha] at h
    exact (List.cons.inj h).1.symm
  obtain ⟨hquote, hbackslash, hcontrol⟩ := hb
  rw [← h]
  refine .raw (fun hc => hquote (hbyte '"' rfl hc)) (fun hc => hbackslash (hbyte '\\' rfl hc)) ?_
  refine Nat.le_of_not_lt fun hlt => ?_
  have hone : encodeChar c = [c.toNat.toUInt8] := by
    rw [encodeChar]
    exact if_pos (by omega)
  rw [hone] at h
  refine hcontrol (UInt8.lt_iff_toNat_lt.mpr ?_)
  rw [← (List.cons.inj h).1, toNat_byte (by omega)]
  exact hlt

/-- The bytes of a text have been gathered from its spelling. -/
theorem Gathered.textSpelled (h : Gathered (encode cs) spelling) : TextSpelled cs spelling := by
  induction cs generalizing spelling with
  | nil =>
      generalize hall : encode [] = all at h
      cases h with
      | nil => exact .nil
      | plain _ _ => cases hall
      | @escape c _ _ _ _ _ =>
          obtain ⟨first, others, hc, -⟩ := Text.Utf8.decodeChar_encodeChar c []
          rw [hc] at hall
          cases hall
  | cons c cs ih =>
      have hcons : encode (c :: cs) = encodeChar c ++ encode cs := List.flatMap_cons
      rw [hcons] at h
      generalize hall : encodeChar c ++ encode cs = all at h
      cases h with
      | nil =>
          obtain ⟨first, others, hc, -⟩ := Text.Utf8.decodeChar_encodeChar c []
          rw [hc] at hall
          cases hall
      | plain hb hmore =>
          obtain ⟨first, others, hc, -⟩ := Text.Utf8.decodeChar_encodeChar c []
          rw [hc, List.cons_append] at hall
          cases hall
          obtain ⟨behind, rfl, hbehind⟩ := hmore.continues (continues_of_encodeChar hc).2
          exact .cons (charSpelled_raw hb hc) (ih hbehind)
      | escape hspelled hmore =>
          obtain ⟨rfl, rfl⟩ := encodeChar_append_inj hall
          exact .cons hspelled (ih hmore)

/-- What is read is what is spelled. -/
theorem outcome_readText_iff {s : String} :
    outcome readText bytes = .ok (s, rest) ↔
      ∃ spelling, TextSpelled s.toList spelling ∧ bytes = spelling ++ byte '"' :: rest := by
  constructor
  · intro h
    obtain ⟨_, h⟩ := outcome_eq_ok_iff.mp h
    rw [readText] at h
    split at h
    · cases h
    rename_i r hgather
    obtain ⟨gathered, spelling, hgathered, hvalue, hbytes⟩ := gathered_of_gatherText hgather
    split at h
    · next cs hdecode =>
        cases h
        rw [List.reverse_nil, List.nil_append] at hvalue
        rw [hvalue, Text.Utf8.decode_eq_some_iff] at hdecode
        subst hdecode
        rw [String.toList_ofList]
        exact ⟨spelling, hgathered.textSpelled, hbytes⟩
    · cases h
  · rintro ⟨spelling, hspelling, rfl⟩
    have h := outcome_readText hspelling rest
    rwa [String.ofList_toList] at h

/-! ## Texts that are skipped -/

/-- A text between its quotes whose escapes are well formed. -/
inductive TextForm : List UInt8 → Prop where
  | nil : TextForm []
  | plain {b : UInt8} {form : List UInt8} : Plain b → TextForm form → TextForm (b :: form)
  | letter {b d : UInt8} {form : List UInt8} : escapeLetter b = some d → TextForm form →
      TextForm (byte '\\' :: b :: form)
  | unit {digits form : List UInt8} {n : Nat} : Digits digits n → TextForm form →
      TextForm (byte '\\' :: byte 'u' :: (digits ++ form))

theorem outcome_skipEscape_letter (h : escapeLetter b = some d) (rest : List UInt8) :
    outcome skipEscape (b :: rest) = .ok ((), rest) := by
  simp only [outcome, skipEscape, h]
  rfl

theorem outcome_skipEscape_unit {digits : List UInt8} (h : Digits digits n) (rest : List UInt8) :
    outcome skipEscape (byte 'u' :: (digits ++ rest)) = .ok ((), rest) := by
  obtain ⟨_, hread⟩ := outcome_eq_ok_iff.mp (outcome_readHex h rest)
  have hletter : escapeLetter (byte 'u') = none := by decide
  simp only [outcome, skipEscape, hletter, hread]
  rfl

theorem form_of_skipEscape (h : outcome skipEscape bytes = .ok ((), rest)) :
    ∃ escape, bytes = escape ++ rest ∧
      ∀ {form}, TextForm form → TextForm (byte '\\' :: (escape ++ form)) := by
  cases bytes with
  | nil => cases h
  | cons b bytes =>
      cases hletter : escapeLetter b with
      | some letter =>
          rw [outcome_skipEscape_letter hletter] at h
          cases h
          exact ⟨[b], rfl, fun hform => .letter hletter hform⟩
      | none =>
          rw [outcome, skipEscape] at h
          simp only [hletter] at h
          split at h
          · next hb =>
              cases hread : readHex bytes with
              | error fault =>
                  rw [hread] at h
                  cases h
              | ok r =>
                  rw [hread] at h
                  cases h
                  obtain ⟨digits, hdigits, hbytes⟩ := digits_of_readHex (outcome_of_eq_ok hread)
                  refine ⟨b :: digits, congrArg (b :: ·) hbytes, fun hform => ?_⟩
                  rw [hb]
                  exact .unit hdigits hform
          · cases h

theorem form_of_skipTextWithin {within : bytes.length ≤ bound} {r : Reading Unit bound}
    (h : skipTextWithin bound bytes within = .ok r) :
    ∃ form, TextForm form ∧ bytes = form ++ byte '"' :: r.rest := by
  fun_induction skipTextWithin bound bytes within with
  | case1 => cases h
  | case2 rest within =>
      cases h
      exact ⟨[], .nil, rfl⟩
  | case3 => cases h
  | case4 rest escaped hescape _ _ _ _ ih =>
      obtain ⟨form, hform, hrest⟩ := ih h
      obtain ⟨escape, hbytes, hmore⟩ := form_of_skipEscape (outcome_of_eq_ok hescape)
      exact ⟨_, hmore hform, by rw [hbytes, hrest]; simp⟩
  | case5 => cases h
  | case6 b rest _ hquote hbackslash hcontrol _ ih =>
      obtain ⟨form, hform, hrest⟩ := ih h
      exact ⟨_, .plain ⟨hquote, hbackslash, hcontrol⟩ hform, by rw [hrest]; rfl⟩

theorem skipTextWithin_escape (h : outcome skipEscape bytes = .ok ((), rest))
    (within : (byte '\\' :: bytes).length ≤ bound) :
    ∃ within', skipTextWithin bound (byte '\\' :: bytes) within =
      skipTextWithin bound rest within' := by
  obtain ⟨hlt, hread⟩ := outcome_eq_ok_iff.mp h
  have hle : rest.length ≤ bound := by
    simp only [List.length_cons] at within
    omega
  refine ⟨hle, ?_⟩
  rw [skipTextWithin, if_neg (by decide), if_pos rfl]
  simp only [hread]

theorem skipTextWithin_form {form : List UInt8} (h : TextForm form)
    (within : (form ++ byte '"' :: rest).length ≤ bound) :
    ∃ hlt, skipTextWithin bound (form ++ byte '"' :: rest) within = .ok ⟨(), rest, hlt⟩ := by
  induction h with
  | nil =>
      simp only [List.nil_append] at within ⊢
      exact ⟨within, by rw [skipTextWithin, if_pos rfl]⟩
  | plain hb _ ih =>
      obtain ⟨hquote, hbackslash, hcontrol⟩ := hb
      simp only [List.cons_append] at within ⊢
      rw [skipTextWithin, if_neg hquote, if_neg hbackslash, if_neg hcontrol]
      exact ih _
  | @letter b d form hletter _ ih =>
      obtain ⟨within', hskip⟩ := skipTextWithin_escape
        (outcome_skipEscape_letter hletter (form ++ byte '"' :: rest)) within
      simp only [List.cons_append]
      rw [hskip]
      exact ih within'
  | @unit digits form n hdigits _ ih =>
      simp only [List.cons_append, List.append_assoc] at within ⊢
      obtain ⟨within', hskip⟩ := skipTextWithin_escape
        (outcome_skipEscape_unit hdigits (form ++ byte '"' :: rest)) within
      rw [hskip]
      exact ih within'

/-- What is skipped is a text that is well formed. -/
theorem outcome_skipText_iff :
    outcome skipText bytes = .ok ((), rest) ↔
      ∃ form, TextForm form ∧ bytes = form ++ byte '"' :: rest := by
  constructor
  · intro h
    obtain ⟨_, h⟩ := outcome_eq_ok_iff.mp h
    exact form_of_skipTextWithin h
  · rintro ⟨form, hform, rfl⟩
    exact outcome_eq_ok_iff.mpr (skipTextWithin_form hform (Nat.le_refl _))

end SentenceGuide.Json
