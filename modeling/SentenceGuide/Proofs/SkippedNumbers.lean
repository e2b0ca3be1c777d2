import SentenceGuide.Json.Number
import SentenceGuide.Proofs.TextReadings

/-!
# Numbers that are skipped

A number is an integer without needless zeros in front, then a fraction or nothing, then
an exponent or nothing (`NumberForm`).  What is skipped behind a sign is such a number
(`form_of_skipNumber`).  A number does not show its own end.  It is skipped just as far
as it goes if what stands behind does not go on with it (`outcome_skipNumber`).
-/

namespace SentenceGuide.Json

variable {bytes rest digits : List UInt8} {b : UInt8}

/-! ## The form of a number -/

/-- Digits, and nothing else. -/
def Digital (digits : List UInt8) : Prop := ∀ b ∈ digits, isDigit b = true

/-- An integer without needless zeros in front. -/
inductive IntegerForm : List UInt8 → Prop where
  | zero : IntegerForm [byte '0']
  | digits {b : UInt8} {digits : List UInt8} : isDigit b = true → b ≠ byte '0' →
      Digital digits → IntegerForm (b :: digits)

/-- A fraction, or nothing. -/
inductive FractionForm : List UInt8 → Prop where
  | none : FractionForm []
  | some {b : UInt8} {digits : List UInt8} : isDigit b = true → Digital digits →
      FractionForm (byte '.' :: b :: digits)

/-- An exponent, or nothing. -/
inductive ExponentForm : List UInt8 → Prop where
  | none : ExponentForm []
  | some {letter b : UInt8} {sign digits : List UInt8} : isExponent letter = true →
      sign ∈ [[], [byte '+'], [byte '-']] → isDigit b = true → Digital digits →
      ExponentForm (letter :: (sign ++ b :: digits))

/-- A number behind its sign. -/
inductive NumberForm : List UInt8 → Prop where
  | mk {integer fraction exponent : List UInt8} : IntegerForm integer →
      FractionForm fraction → ExponentForm exponent →
      NumberForm (integer ++ (fraction ++ exponent))

/-- What stands behind a number does not go on with it. -/
def Ends (rest : List UInt8) : Prop :=
  ∀ b ∈ rest.head?, isDigit b = false ∧ b ≠ byte '.' ∧ isExponent b = false

theorem ends_cons (hdigit : isDigit b = false) (hpoint : b ≠ byte '.')
    (hexponent : isExponent b = false) (rest : List UInt8) : Ends (b :: rest) := by
  intro c hc
  cases hc
  exact ⟨hdigit, hpoint, hexponent⟩

theorem exists_digital_append_skipDigits (bytes : List UInt8) :
    ∃ digits, Digital digits ∧ bytes = digits ++ skipDigits bytes :=
  ⟨bytes.takeWhile isDigit, List.all_eq_true.mp List.all_takeWhile,
    List.takeWhile_append_dropWhile.symm⟩

theorem skipDigits_append (h : Digital digits) (hrest : ∀ b ∈ rest.head?, isDigit b = false) :
    skipDigits (digits ++ rest) = rest := by
  have happend : skipDigits (digits ++ rest) = skipDigits rest :=
    List.dropWhile_append_of_pos h
  rw [happend]
  cases rest with
  | nil => rfl
  | cons b rest => exact List.dropWhile_cons_of_neg (by simp [hrest b rfl])

theorem not_digit_of_isExponent (h : isExponent b = true) : isDigit b = false := by
  simp only [isExponent, Bool.or_eq_true, beq_iff_eq] at h
  rcases h with rfl | rfl <;> rfl

theorem head?_exponent {exponent : List UInt8} (h : ExponentForm exponent) (hrest : Ends rest) :
    ∀ b ∈ (exponent ++ rest).head?, isDigit b = false ∧ b ≠ byte '.' := by
  cases h with
  | none => exact fun b hb => ⟨(hrest b hb).1, (hrest b hb).2.1⟩
  | some hletter _ _ _ =>
      intro b hb
      cases hb
      refine ⟨not_digit_of_isExponent hletter, ?_⟩
      rintro rfl
      cases hletter

theorem head?_fraction {fraction exponent : List UInt8} (hfraction : FractionForm fraction)
    (hexponent : ExponentForm exponent) (hrest : Ends rest) :
    ∀ b ∈ (fraction ++ (exponent ++ rest)).head?, isDigit b = false := by
  cases hfraction with
  | none => exact fun b hb => (head?_exponent hexponent hrest b hb).1
  | some _ _ =>
      intro b hb
      cases hb
      rfl

/-! ## What is skipped is a number -/

theorem digits_of_skipExponentDigits (h : outcome skipExponentDigits bytes = .ok ((), rest)) :
    ∃ b digits, isDigit b = true ∧ Digital digits ∧ bytes = b :: (digits ++ rest) := by
  obtain ⟨_, h⟩ := outcome_eq_ok_iff.mp h
  cases bytes with
  | nil => cases h
  | cons b bytes =>
      rw [skipExponentDigits] at h
      split at h
      · next hb =>
          cases h
          obtain ⟨digits, hdigits, hbytes⟩ := exists_digital_append_skipDigits bytes
          exact ⟨b, digits, hb, hdigits, congrArg (b :: ·) hbytes⟩
      · cases h

theorem digits_of_skipExponent (h : outcome skipExponent bytes = .ok ((), rest)) :
    ∃ sign b digits, sign ∈ [[], [byte '+'], [byte '-']] ∧ isDigit b = true ∧ Digital digits ∧
      bytes = sign ++ b :: (digits ++ rest) := by
  obtain ⟨_, h⟩ := outcome_eq_ok_iff.mp h
  cases bytes with
  | nil => cases h
  | cons b bytes =>
      rw [skipExponent] at h
      split at h
      · next hsign =>
          cases hskip : skipExponentDigits bytes with
          | error fault =>
              rw [hskip] at h
              cases h
          | ok r =>
              rw [hskip] at h
              cases h
              obtain ⟨d, digits, hd, hdigits, hbytes⟩ :=
                digits_of_skipExponentDigits (outcome_of_eq_ok hskip)
              refine ⟨[b], d, digits, ?_, hd, hdigits, congrArg (b :: ·) hbytes⟩
              rcases hsign with rfl | rfl <;> simp
      · obtain ⟨d, digits, hd, hdigits, hbytes⟩ :=
          digits_of_skipExponentDigits (outcome_of_eq_ok h)
        exact ⟨[], d, digits, by simp, hd, hdigits, hbytes⟩

theorem exponent_of_skipScale {r : Reading Unit (bytes.length + 1)} (h : skipScale bytes = .ok r) :
    ∃ exponent, ExponentForm exponent ∧ bytes = exponent ++ r.rest := by
  cases bytes with
  | nil =>
      cases h
      exact ⟨[], .none, rfl⟩
  | cons b bytes =>
      rw [skipScale] at h
      split at h
      · next hb =>
          cases hskip : skipExponent bytes with
          | error fault =>
              rw [hskip] at h
              cases h
          | ok r =>
              rw [hskip] at h
              cases h
              obtain ⟨sign, d, digits, hsign, hd, hdigits, hbytes⟩ :=
                digits_of_skipExponent (outcome_of_eq_ok hskip)
              refine ⟨_, .some hb hsign hd hdigits, ?_⟩
              simp only [List.cons_append, List.append_assoc]
              exact congrArg (b :: ·) hbytes
      · cases h
        exact ⟨[], .none, rfl⟩

theorem parts_of_skipNumberTail {r : Reading Unit (bytes.length + 1)}
    (h : skipNumberTail bytes = .ok r) :
    ∃ fraction exponent, FractionForm fraction ∧ ExponentForm exponent ∧
      bytes = fraction ++ (exponent ++ r.rest) := by
  cases bytes with
  | nil =>
      cases h
      exact ⟨[], [], .none, .none, rfl⟩
  | cons b bytes =>
      rw [skipNumberTail] at h
      split at h
      · next hb =>
          subst hb
          cases bytes with
          | nil => cases h
          | cons d bytes =>
              rw [skipFraction] at h
              split at h
              · next hd =>
                  cases hskip : skipScale (skipDigits bytes) with
                  | error fault =>
                      rw [hskip] at h
                      cases h
                  | ok r =>
                      rw [hskip] at h
                      cases h
                      obtain ⟨digits, hdigits, hbytes⟩ := exists_digital_append_skipDigits bytes
                      obtain ⟨exponent, hexponent, hleft⟩ := exponent_of_skipScale hskip
                      rw [hleft] at hbytes
                      exact ⟨_, exponent, .some hd hdigits, hexponent,
                        congrArg (byte '.' :: d :: ·) hbytes⟩
              · cases h
      · obtain ⟨exponent, hexponent, hbytes⟩ := exponent_of_skipScale h
        exact ⟨[], exponent, .none, hexponent, hbytes⟩

theorem form_of_skipNumber (h : outcome skipNumber bytes = .ok ((), rest)) :
    ∃ number, NumberForm number ∧ bytes = number ++ rest := by
  obtain ⟨_, h⟩ := outcome_eq_ok_iff.mp h
  cases bytes with
  | nil => cases h
  | cons b bytes =>
      rw [skipNumber] at h
      split at h
      · next hb =>
          subst hb
          split at h
          · cases h
          cases hskip : skipNumberTail bytes with
          | error fault =>
              rw [hskip] at h
              cases h
          | ok r =>
              rw [hskip] at h
              cases h
              obtain ⟨fraction, exponent, hfraction, hexponent, hbytes⟩ :=
                parts_of_skipNumberTail hskip
              refine ⟨_, .mk .zero hfraction hexponent, ?_⟩
              simp only [List.cons_append, List.nil_append, List.append_assoc]
              exact congrArg (byte '0' :: ·) hbytes
      · next hzero =>
          split at h
          · next hb =>
              cases hskip : skipNumberTail (skipDigits bytes) with
              | error fault =>
                  rw [hskip] at h
                  cases h
              | ok r =>
                  rw [hskip] at h
                  cases h
                  obtain ⟨digits, hdigits, hbytes⟩ := exists_digital_append_skipDigits bytes
                  obtain ⟨fraction, exponent, hfraction, hexponent, hleft⟩ :=
                    parts_of_skipNumberTail hskip
                  rw [hleft] at hbytes
                  refine ⟨_, .mk (.digits hb hzero hdigits) hfraction hexponent, ?_⟩
                  simp only [List.cons_append, List.append_assoc]
                  exact congrArg (b :: ·) hbytes
          · cases h

/-! ## Numbers are skipped -/

theorem outcome_skipExponentDigits (hb : isDigit b = true) (hdigits : Digital digits)
    (hrest : Ends rest) : outcome skipExponentDigits (b :: (digits ++ rest)) = .ok ((), rest) := by
  have hskip := skipDigits_append hdigits fun c hc => (hrest c hc).1
  simp only [outcome, skipExponentDigits, if_pos hb, hskip]
  rfl

theorem outcome_skipExponent {sign : List UInt8} (hsign : sign ∈ [[], [byte '+'], [byte '-']])
    (hb : isDigit b = true) (hdigits : Digital digits) (hrest : Ends rest) :
    outcome skipExponent (sign ++ b :: (digits ++ rest)) = .ok ((), rest) := by
  obtain ⟨_, hskip⟩ := outcome_eq_ok_iff.mp (outcome_skipExponentDigits hb hdigits hrest)
  have hb_sign : ¬ (b = byte '+' ∨ b = byte '-') := by
    rintro (rfl | rfl) <;> cases hb
  simp only [List.mem_cons, List.not_mem_nil, or_false] at hsign
  rcases hsign with rfl | rfl | rfl
  · simp only [List.nil_append, outcome, skipExponent, if_neg hb_sign, hskip]
    rfl
  · simp only [List.cons_append, List.nil_append, outcome, skipExponent, true_or, if_true, hskip]
    rfl
  · simp only [List.cons_append, List.nil_append, outcome, skipExponent, or_true, if_true, hskip]
    rfl

theorem skipScale_exponent {exponent : List UInt8} (h : ExponentForm exponent)
    (hrest : Ends rest) : ∃ hlt, skipScale (exponent ++ rest) = .ok ⟨(), rest, hlt⟩ := by
  cases h with
  | none =>
      cases rest with
      | nil => exact ⟨_, rfl⟩
      | cons b rest =>
          rw [List.nil_append, skipScale, (hrest b rfl).2.2]
          exact ⟨_, rfl⟩
  | @some letter b sign digits hletter hsign hb hdigits =>
      obtain ⟨hlt, hskip⟩ := outcome_eq_ok_iff.mp (outcome_skipExponent hsign hb hdigits hrest)
      have heq : letter :: (sign ++ b :: digits) ++ rest =
          letter :: (sign ++ b :: (digits ++ rest)) := by simp
      rw [heq, skipScale, if_pos hletter, hskip]
      exact ⟨_, rfl⟩

theorem skipNumberTail_parts {fraction exponent : List UInt8} (hfraction : FractionForm fraction)
    (hexponent : ExponentForm exponent) (hrest : Ends rest) :
    ∃ hlt, skipNumberTail (fraction ++ (exponent ++ rest)) = .ok ⟨(), rest, hlt⟩ := by
  have hhead := head?_exponent hexponent hrest
  obtain ⟨hlt, hskip⟩ := skipScale_exponent hexponent hrest
  cases hfraction with
  | none =>
      rw [List.nil_append]
      generalize exponent ++ rest = behind at *
      cases behind with
      | nil =>
          cases hskip
          exact ⟨_, rfl⟩
      | cons b behind =>
          rw [skipNumberTail, if_neg (hhead b rfl).2, hskip]
          exact ⟨_, rfl⟩
  | @some b digits hb hdigits =>
      have hdrop := skipDigits_append hdigits fun c hc => (hhead c hc).1
      have hscale : ∃ hlt, skipScale (skipDigits (digits ++ (exponent ++ rest))) =
          .ok ⟨(), rest, hlt⟩ := by
        rw [hdrop]
        exact ⟨hlt, hskip⟩
      obtain ⟨_, hscale⟩ := hscale
      simp only [List.cons_append, skipNumberTail, if_true, skipFraction, if_pos hb, hscale]
      refine ⟨?_, rfl⟩
      simp only [List.length_cons, List.length_append]
      omega

theorem outcome_skipNumber {number : List UInt8} (h : NumberForm number) (hrest : Ends rest) :
    outcome skipNumber (number ++ rest) = .ok ((), rest) := by
  obtain ⟨hinteger, hfraction, hexponent⟩ := h
  have hhead := head?_fraction hfraction hexponent hrest
  obtain ⟨hlt, htail⟩ := skipNumberTail_parts hfraction hexponent hrest
  simp only [List.append_assoc]
  generalize _ ++ (_ ++ rest) = behind at hhead hlt htail
  cases hinteger with
  | zero =>
      have hdigit : ¬ (behind.head?.map isDigit).getD false = true := by
        cases behind with
        | nil => exact nofun
        | cons b behind => simp [hhead b rfl]
      simp only [List.cons_append, List.nil_append, outcome, skipNumber, if_true, if_neg hdigit,
        htail]
      rfl
  | @digits b digits hb hzero hdigits =>
      have hdrop := skipDigits_append hdigits hhead
      have hnumber : ∃ hlt,
          skipNumberTail (skipDigits (digits ++ behind)) = .ok ⟨(), rest, hlt⟩ := by
        rw [hdrop]
        exact ⟨hlt, htail⟩
      obtain ⟨_, hnumber⟩ := hnumber
      simp only [List.cons_append, outcome, skipNumber, if_neg hzero, if_pos hb, hnumber]
      rfl

end SentenceGuide.Json
