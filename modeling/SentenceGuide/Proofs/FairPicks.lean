import Mathlib.Data.Set.Card
import Mathlib.Order.Interval.Finset.Nat
import SentenceGuide.Proofs.Composing

/-!
# Picks are fair

A word makes a choice if its product with the number of choices lies in the block of 64 bits
that belongs to the choice, and within the zone of that block.  The zone is as long as a
power of two multiples of the number of choices, so whatever the first of them in a block
is, it holds just as many of them (`accepts_and_choice_iff`).  So each choice is made by
equally many words, one behind the other (`ncard_choosing`).

A step of the composer takes the candidates in order for the choices, and stopping for the
last one where the tokens are a sentence.  So its first word selects each of them equally
often, never stops where there is no sentence, and is followed by the next word if it
selects nothing (`steps_are_fair`).
-/

namespace SentenceGuide

namespace Words

variable {n i : Nat} {w : UInt64}

/-! ## Leading zeros -/

/-- How many zeros a number has in front when it is written with 64 binary digits. -/
def leadingZeros (n : Nat) : Nat := (BitVec.ofNat 64 n).clz.toNat

theorem toNat_ofNat (hn : n < 2 ^ 64) : (BitVec.ofNat 64 n).toNat = n := by
  rw [BitVec.toNat_ofNat, Nat.mod_eq_of_lt hn]

theorem lt_two_pow (hn : n < 2 ^ 64) : n < 2 ^ (64 - leadingZeros n) := by
  have hlt := BitVec.toNat_lt_two_pow_sub_clz (x := BitVec.ofNat 64 n)
  rwa [toNat_ofNat hn] at hlt

theorem leadingZeros_eq (hpos : 0 < n) (hn : n < 2 ^ 64) : leadingZeros n = 63 - n.log2 := by
  have hne : BitVec.ofNat 64 n ≠ 0#64 := by
    intro hzero
    have htoNat := congrArg BitVec.toNat hzero
    rw [toNat_ofNat hn] at htoNat
    exact Nat.ne_of_gt hpos htoNat
  have hzeros : leadingZeros n < 64 := BitVec.clz_lt_iff_ne_zero.mpr hne
  have hle : 2 ^ (63 - leadingZeros n) ≤ n := by
    have hle := BitVec.two_pow_sub_clz_le_toNat_of_ne_zero (by decide) hne
    rwa [toNat_ofNat hn] at hle
  have hlt : n < 2 ^ (63 - leadingZeros n + 1) := by
    have hsucc : 63 - leadingZeros n + 1 = 64 - leadingZeros n := by omega
    rw [hsucc]
    exact lt_two_pow hn
  have hlog : n.log2 = 63 - leadingZeros n := (Nat.log2_eq_iff (Nat.ne_of_gt hpos)).mpr ⟨hle, hlt⟩
  omega

theorem zone_eq (hpos : 0 < n) (hn : n < 2 ^ 64) : zone n = n * 2 ^ leadingZeros n - 1 := by
  rw [leadingZeros_eq hpos hn]
  rfl

/-- As many multiples of the number of choices as the zone holds fit into 64 bits. -/
theorem mul_two_pow_lt (hpos : 0 < n) (hn : n < 2 ^ 64) : n * 2 ^ leadingZeros n < 2 ^ 64 := by
  have hzeros : leadingZeros n ≤ 64 := by
    rw [leadingZeros_eq hpos hn]
    omega
  calc n * 2 ^ leadingZeros n
      < 2 ^ (64 - leadingZeros n) * 2 ^ leadingZeros n :=
        Nat.mul_lt_mul_of_pos_right (lt_two_pow hn) (Nat.two_pow_pos _)
    _ = 2 ^ 64 := by rw [← Nat.pow_add, Nat.sub_add_cancel hzeros]

theorem mul_two_pow_pos (hpos : 0 < n) : 0 < n * 2 ^ leadingZeros n :=
  Nat.mul_pos hpos (Nat.two_pow_pos _)

/-! ## The words that make a choice -/

/-- The product of a word with a number of choices lies in the zone of a block. -/
theorem accepts_and_choice_iff_mul (hpos : 0 < n) (hn : n < 2 ^ 64) :
    accepts n w = true ∧ Words.choice n w = i ↔
      i * 2 ^ 64 ≤ w.toNat * n ∧ w.toNat * n < i * 2 ^ 64 + n * 2 ^ leadingZeros n := by
  have hlt := mul_two_pow_lt hpos hn
  have hzone := mul_two_pow_pos hpos
  have hsplit := Nat.div_add_mod (w.toNat * n) (2 ^ 64)
  have hmod := Nat.mod_lt (w.toNat * n) (Nat.two_pow_pos 64)
  have haccepts : accepts n w = true ↔ w.toNat * n % 2 ^ 64 ≤ n * 2 ^ leadingZeros n - 1 := by
    rw [accepts, decide_eq_true_iff, zone_eq hpos hn]
    rfl
  have hchoice : Words.choice n w = w.toNat * n / 2 ^ 64 := rfl
  rw [haccepts, hchoice]
  generalize w.toNat * n = product at *
  generalize n * 2 ^ leadingZeros n = zone at *
  constructor
  · rintro ⟨hle, rfl⟩
    omega
  · rintro ⟨hle, hbelow⟩
    omega

/-- Some words further on than the smallest one whose product reaches a choice, the product
has grown by as many multiples of the number of choices. -/
theorem wordFor_add_le_iff (hpos : 0 < n) (i k m : Nat) :
    wordFor n i + k ≤ m ↔ i * 2 ^ 64 + n * k ≤ m * n := by
  obtain ⟨low, hlow, hfirst⟩ := exists_wordFor_mul_eq hpos i
  have hproduct : (wordFor n i + k) * n = i * 2 ^ 64 + low + n * k := by
    rw [Nat.add_mul, hfirst, Nat.mul_comm k]
    rfl
  constructor
  · intro hle
    have hmul := Nat.mul_le_mul_right n hle
    omega
  · intro hle
    by_contra hlt
    have hmul := Nat.mul_le_mul_right n (Nat.succ_le_of_lt (Nat.lt_of_not_le hlt))
    rw [Nat.succ_mul] at hmul
    omega

/-- The words that make a choice stand one behind the other. -/
theorem accepts_and_choice_iff (hpos : 0 < n) (hn : n < 2 ^ 64) :
    accepts n w = true ∧ Words.choice n w = i ↔
      w.toNat ∈ Set.Ico (wordFor n i) (wordFor n i + 2 ^ leadingZeros n) := by
  have hfrom := wordFor_add_le_iff hpos i 0 w.toNat
  have hto := wordFor_add_le_iff hpos i (2 ^ leadingZeros n) w.toNat
  rw [Nat.mul_zero, Nat.add_zero, Nat.add_zero] at hfrom
  rw [accepts_and_choice_iff_mul hpos hn, Set.mem_Ico, hfrom, ← Nat.not_le, ← Nat.not_le, hto]

/-- All of them are words of 64 bits. -/
theorem wordFor_add_le (hn : n < 2 ^ 64) (hi : i < n) :
    wordFor n i + 2 ^ leadingZeros n ≤ 2 ^ 64 := by
  have hpos : 0 < n := Nat.zero_lt_of_lt hi
  rw [wordFor_add_le_iff hpos]
  calc i * 2 ^ 64 + n * 2 ^ leadingZeros n
      ≤ i * 2 ^ 64 + 2 ^ 64 := Nat.add_le_add_left (Nat.le_of_lt (mul_two_pow_lt hpos hn)) _
    _ = (i + 1) * 2 ^ 64 := (Nat.succ_mul ..).symm
    _ ≤ n * 2 ^ 64 := Nat.mul_le_mul_right _ hi
    _ = 2 ^ 64 * n := Nat.mul_comm ..

/-- Each choice is made by a power of two of words, with as high an exponent as the number of
choices has zeros in front. -/
theorem ncard_choosing (hn : n < 2 ^ 64) (hi : i < n) :
    {w : UInt64 | accepts n w = true ∧ Words.choice n w = i}.ncard = 2 ^ leadingZeros n := by
  have hpos : 0 < n := Nat.zero_lt_of_lt hi
  let first := wordFor n i
  have hset : {w : UInt64 | accepts n w = true ∧ Words.choice n w = i} =
      Set.preimage UInt64.toNat (Set.Ico first (first + 2 ^ leadingZeros n)) :=
    Set.ext fun w => accepts_and_choice_iff hpos hn
  have hrange : Set.Ico first (first + 2 ^ leadingZeros n) ⊆ Set.range UInt64.toNat := by
    rintro m ⟨-, hm⟩
    exact ⟨.ofNat m, UInt64.toNat_ofNat_of_lt' (Nat.lt_of_lt_of_le hm (wordFor_add_le hn hi))⟩
  rw [hset, Set.ncard_preimage_of_injective_subset_range (fun _ _ => UInt64.toNat.inj) hrange,
    ← Finset.coe_Ico, Set.ncard_coe_finset, Nat.card_Ico, Nat.add_sub_cancel_left]

/-! ## Picks as arithmetic of machine words -/

/-- The product of a word with a number of choices, in 128 bits. -/
def product (n : Nat) (w : UInt64) : BitVec 128 := w.toBitVec.setWidth 128 * BitVec.ofNat 128 n

theorem toNat_product (hn : n < 2 ^ 64) (w : UInt64) : (product n w).toNat = w.toNat * n := by
  have hlt : w.toNat * n < 2 ^ 64 * 2 ^ 64 := Nat.mul_lt_mul'' (UInt64.toNat_lt w) hn
  rw [← Nat.pow_add] at hlt
  have hw : w.toNat < 2 ^ 128 := Nat.lt_trans (UInt64.toNat_lt w) (by decide)
  rw [product, BitVec.toNat_mul, BitVec.toNat_setWidth, BitVec.toNat_ofNat, UInt64.toNat_toBitVec,
    Nat.mod_eq_of_lt hw, Nat.mod_eq_of_lt (Nat.lt_trans hn (by decide)), Nat.mod_eq_of_lt hlt]

theorem toNat_zone (hpos : 0 < n) (hn : n < 2 ^ 64) :
    (BitVec.ofNat 64 n <<< leadingZeros n - 1#64).toNat = zone n := by
  have hlt := mul_two_pow_lt hpos hn
  have hle := mul_two_pow_pos hpos
  have hshift : (BitVec.ofNat 64 n <<< leadingZeros n).toNat = n * 2 ^ leadingZeros n := by
    rw [BitVec.toNat_shiftLeft, toNat_ofNat hn, Nat.shiftLeft_eq, Nat.mod_eq_of_lt hlt]
  have hone : (1#64).toNat = 1 := rfl
  rw [BitVec.toNat_sub, hshift, hone, zone_eq hpos hn]
  omega

/-- A word is accepted if the lower half of its product is not beyond the number of choices,
shifted up to the first digit, less one.  The upper half is the choice. -/
theorem accepts_iff_product (hpos : 0 < n) (hn : n < 2 ^ 64) (w : UInt64) :
    (accepts n w = true ↔
      (product n w).setWidth 64 ≤ BitVec.ofNat 64 n <<< leadingZeros n - 1#64) ∧
    Words.choice n w = (product n w >>> 64).toNat := by
  constructor
  · rw [BitVec.le_def, BitVec.toNat_setWidth, toNat_product hn, toNat_zone hpos hn, accepts,
      decide_eq_true_iff]
  · rw [BitVec.toNat_ushiftRight, toNat_product hn, Nat.shiftRight_eq_div_pow]
    rfl

end Words

/-! ## Steps of the composer -/

/-- What a word selects: nothing if it is refused, and else a candidate, or none of them to
stop. -/
def Completion.select (c : Completion) (w : UInt64) : Option (Option String) :=
  if Words.accepts c.choices w then some c.candidates[Words.choice c.choices w]? else none

/-- What composing comes to where something has been selected behind some tokens, with room for
some more. -/
def Grammar.outcomeBehind (g : Grammar) (budget limit : Nat) (tokens : List String)
    (words : Words) : Nat → Option String → Option (Except ComposeFault (List String))
  | _, none => some (.ok tokens)
  | 0, some _ => some (.error (.tokenLimit limit))
  | room + 1, some t => (composeFrom g budget limit (tokens ++ [t]) words room).map (·.outcome)

variable {g : Grammar} {budget limit drawn room : Nat} {tokens : List String} {c : Completion}
  {w : UInt64} {script : List UInt64} {next : Option String} {t : String}

theorem Completion.select_eq_some_iff :
    c.select w = some next ↔
      Words.accepts c.choices w = true ∧ c.candidates[Words.choice c.choices w]? = next := by
  rw [Completion.select]
  split
  · next h => simp [h]
  · next h => simp [h]

theorem Completion.select_eq_none_iff : c.select w = none ↔ Words.accepts c.choices w = false := by
  rw [Completion.select]
  split
  · next h => simp [h]
  · next h => simp [h]

/-- A word selects a candidate if it makes the choice at the place of the candidate. -/
theorem Completion.select_eq_candidate_iff {i : Nat} (hnodup : c.candidates.Nodup)
    (hi : c.candidates[i]? = some t) :
    c.select w = some (some t) ↔
      Words.accepts c.choices w = true ∧ Words.choice c.choices w = i := by
  have hlt : i < c.candidates.length := (List.getElem?_eq_some_iff.mp hi).1
  rw [select_eq_some_iff, ← hi, eq_comm (b := c.candidates[i]?),
    List.getElem?_inj hlt hnodup, eq_comm (a := i)]

/-- A word selects to stop if it makes the choice behind all candidates, which only a sentence
has. -/
theorem Completion.select_eq_stop_iff (hdead : c.isDeadEnd = false) :
    c.select w = some none ↔
      c.isComplete = true ∧ Words.accepts c.choices w = true ∧
        Words.choice c.choices w = c.candidates.length := by
  have hlt := lt_choices_iff.mp (Words.choice_lt (choices_pos hdead) w)
  rw [select_eq_some_iff, List.getElem?_eq_none_iff]
  constructor
  · rintro ⟨haccepts, hle⟩
    obtain ⟨heq, hcomplete⟩ := hlt.resolve_left (Nat.not_lt.mpr hle)
    exact ⟨hcomplete, haccepts, heq⟩
  · rintro ⟨-, haccepts, heq⟩
    exact ⟨haccepts, Nat.le_of_eq heq.symm⟩

section Step

variable {e : Exploration} (hseek : g.seek budget .lifo tokens = some e)
  (hdead : e.completion.isDeadEnd = false)

include hseek hdead

/-- A first word that selects nothing is passed by. -/
theorem composeFrom_of_refused (h : e.completion.select w = none) :
    composeFrom g budget limit tokens ⟨w :: script, drawn⟩ room =
      composeFrom g budget limit tokens ⟨script, drawn + 1⟩ room := by
  have hpick := Words.pick_of_refused (Completion.select_eq_none_iff.mp h) script drawn
  rw [composeFrom, composeFrom, hseek]
  simp only [hdead, Bool.false_eq_true, if_false, hpick]

/-- What a first word selects is what the composer goes on with. -/
theorem outcome_of_selected (h : e.completion.select w = some next) :
    (composeFrom g budget limit tokens ⟨w :: script, drawn⟩ room).map (·.outcome) =
      g.outcomeBehind budget limit tokens ⟨script, drawn + 1⟩ room next := by
  obtain ⟨haccepts, hnext⟩ := Completion.select_eq_some_iff.mp h
  have hpick := Words.pick_of_accepts haccepts script drawn
  rw [composeFrom, hseek]
  simp only [hdead, Bool.false_eq_true, if_false, hpick, hnext]
  cases next with
  | none => rfl
  | some t =>
      cases room with
      | zero => rfl
      | succ room => simp [Grammar.outcomeBehind, Composition.behind, Function.comp_def]

end Step

/-- Tokens that are no dead end, with fewer choices behind them than there are words: each
candidate is selected by equally many words, a power of two of them, and so is stopping if the
tokens are a sentence.  No word selects anything else.  The composer goes on with what its
first word selects, and with the next word if that is nothing. -/
theorem steps_are_fair (hcomplete : g.complete budget .lifo tokens = some c)
    (hdead : c.isDeadEnd = false) (hn : c.choices < 2 ^ 64) :
    ((∀ t ∈ c.candidates,
        {w | c.select w = some (some t)}.ncard = 2 ^ Words.leadingZeros c.choices) ∧
      (c.isComplete = true →
        {w | c.select w = some none}.ncard = 2 ^ Words.leadingZeros c.choices) ∧
      (∀ w t, c.select w = some (some t) → t ∈ c.candidates) ∧
      ∀ w, c.select w = some none → c.isComplete = true) ∧
    (∀ w script drawn limit room,
      (c.select w = none →
        composeFrom g budget limit tokens ⟨w :: script, drawn⟩ room =
          composeFrom g budget limit tokens ⟨script, drawn + 1⟩ room) ∧
      ∀ next, c.select w = some next →
        (composeFrom g budget limit tokens ⟨w :: script, drawn⟩ room).map (·.outcome) =
          g.outcomeBehind budget limit tokens ⟨script, drawn + 1⟩ room next) ∧
    ∀ w, (c.select w = none ↔ ¬ (Words.product c.choices w).setWidth 64 ≤
        BitVec.ofNat 64 c.choices <<< Words.leadingZeros c.choices - 1#64) ∧
      ∀ next, c.select w = some next →
        c.candidates[(Words.product c.choices w >>> 64).toNat]? = next := by
  have hpos := choices_pos hdead
  obtain ⟨e, hseek, rfl⟩ := Grammar.exists_explore_of_complete hcomplete
  refine ⟨⟨?_, ?_, ?_, ?_⟩, ?_, ?_⟩
  · intro t ht
    obtain ⟨i, hi⟩ := List.mem_iff_getElem?.mp ht
    have hlt : i < e.completion.choices :=
      lt_choices_iff.mpr (.inl (List.getElem?_eq_some_iff.mp hi).1)
    rw [← Words.ncard_choosing hn hlt]
    congr 1
    exact Set.ext fun w =>
      Completion.select_eq_candidate_iff (Grammar.candidates_nodup hcomplete) hi
  · intro hsentence
    have hlt : e.completion.candidates.length < e.completion.choices :=
      lt_choices_iff.mpr (.inr ⟨rfl, hsentence⟩)
    rw [← Words.ncard_choosing hn hlt]
    congr 1
    exact Set.ext fun w =>
      (Completion.select_eq_stop_iff hdead).trans (and_iff_right hsentence)
  · intro w t h
    exact List.mem_of_getElem? (Completion.select_eq_some_iff.mp h).2
  · intro w h
    exact ((Completion.select_eq_stop_iff hdead).mp h).1
  · intro w script drawn limit room
    exact ⟨composeFrom_of_refused hseek hdead, fun next => outcome_of_selected hseek hdead⟩
  · intro w
    obtain ⟨haccepts, hchoice⟩ := Words.accepts_iff_product hpos hn w
    rw [Completion.select_eq_none_iff, ← haccepts, Bool.not_eq_true, ← hchoice]
    exact ⟨Iff.rfl, fun next h => (Completion.select_eq_some_iff.mp h).2⟩

/-- Where there are three choices, a quarter of the words is refused. -/
theorem steps_are_fair_optionals :
    ∃ c, optionals.complete 40 .lifo [] = some c ∧ c.isDeadEnd = false ∧ c.choices < 2 ^ 64 ∧
      {w | c.select w = some (some "x")}.ncard = 2 ^ 62 ∧
      {w | c.select w = some none}.ncard = 2 ^ 62 ∧ c.select 0xFFFFFFFFFFFFFFFF = none := by
  have hcomplete : optionals.complete 40 .lifo [] = some ⟨["a", "x"], true⟩ := by decide +kernel
  obtain ⟨⟨hcandidates, hstop, -⟩, -⟩ := steps_are_fair hcomplete (by decide) (by decide)
  have hzeros : Words.leadingZeros 3 = 62 := by decide
  refine ⟨_, hcomplete, by decide, by decide, ?_, ?_, by decide +kernel⟩
  · exact (hcandidates "x" (by decide)).trans (congrArg (2 ^ ·) hzeros)
  · exact (hstop rfl).trans (congrArg (2 ^ ·) hzeros)

end SentenceGuide
