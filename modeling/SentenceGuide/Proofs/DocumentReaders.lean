import SentenceGuide.Json.Record
import SentenceGuide.Proofs.TextSpellings

/-!
# What readers of a document go by

A reader of a part of a document goes by the next byte that is no blank.  Each case
in which it does not refuse this byte has an equation here.  A list goes on with its
next element or ends, and a record goes on with one of its two fields or ends.
-/

namespace SentenceGuide.Json

variable {α β : Type} {element : Reader α} {shape : Shape α β}
  {bytes rest more behind keyBytes : List UInt8} {value : α} {b : UInt8} {bound : Nat}
  {done values : List α} {isFirst : Bool}

/-- What stands between an opening and a closing byte, with more behind them. -/
theorem enclosed_append (opener closer : UInt8) (inside rest : List UInt8) :
    opener :: (inside ++ [closer]) ++ rest = opener :: (inside ++ closer :: rest) := by
  simp

/-! ## Blanks -/

/-- Blanks, and nothing else. -/
def Blanks (gap : List UInt8) : Prop := ∀ b ∈ gap, isBlank b = true

theorem blanks_nil : Blanks [] := nofun

theorem skipBlanks_visible (h : isBlank b = false) (rest : List UInt8) :
    skipBlanks (b :: rest) = b :: rest :=
  List.dropWhile_cons_of_neg (by simp [h])

theorem skipBlanks_append {gap : List UInt8} (h : Blanks gap) (rest : List UInt8) :
    skipBlanks (gap ++ rest) = skipBlanks rest :=
  List.dropWhile_append_of_pos h

/-- The bytes in front of the first that is no blank are blanks. -/
theorem exists_blanks_append_skipBlanks (bytes : List UInt8) :
    ∃ gap, Blanks gap ∧ bytes = gap ++ skipBlanks bytes :=
  ⟨bytes.takeWhile isBlank, List.all_eq_true.mp List.all_takeWhile,
    List.takeWhile_append_dropWhile.symm⟩

theorem blanks_of_skipBlanks (h : skipBlanks bytes = rest) :
    ∃ gap, Blanks gap ∧ bytes = gap ++ rest :=
  h ▸ exists_blanks_append_skipBlanks bytes

/-! ## Single values -/

theorem outcome_readString (h : skipBlanks bytes = byte '"' :: rest) :
    outcome readString bytes = outcome readText rest := by
  rw [outcome, readString]
  split
  · next heq => cases h.symm.trans heq
  · next heq =>
      cases h.symm.trans heq
      rw [if_pos rfl, outcome]
      cases readText rest <;> rfl

theorem outcome_readFlag_true (h : skipBlanks bytes = byte 't' :: more)
    (hword : readWord ['r', 'u', 'e'] more = .ok rest) :
    outcome readFlag bytes = .ok (true, rest) := by
  rw [outcome, readFlag]
  split
  · next heq => cases h.symm.trans heq
  · next heq =>
      cases h.symm.trans heq
      rw [if_pos rfl]
      dsimp only
      split
      · next hfault => cases hword.symm.trans hfault
      · next hok =>
          cases hword.symm.trans hok
          rfl

theorem outcome_readFlag_false (h : skipBlanks bytes = byte 'f' :: more)
    (hword : readWord ['a', 'l', 's', 'e'] more = .ok rest) :
    outcome readFlag bytes = .ok (false, rest) := by
  rw [outcome, readFlag]
  split
  · next heq => cases h.symm.trans heq
  · next heq =>
      cases h.symm.trans heq
      rw [if_neg (by decide), if_pos rfl]
      dsimp only
      split
      · next hfault => cases hword.symm.trans hfault
      · next hok =>
          cases hword.symm.trans hok
          rfl

/-! ## Elements of a list -/

/-- A list ends at its closing bracket. -/
theorem readElements_end (h : skipBlanks bytes = byte ']' :: rest)
    (within : bytes.length ≤ bound) :
    ∃ hlt, readElements element bound isFirst done bytes within =
      .ok ⟨done.reverse, rest, hlt⟩ := by
  rw [readElements]
  split
  · next heq => cases h.symm.trans heq
  · next heq =>
      cases h.symm.trans heq
      exact ⟨Nat.lt_of_lt_of_le (length_of_skipBlanks h) within, if_pos rfl⟩

/-- The first element stands right behind the opening bracket. -/
theorem readElements_first (h : skipBlanks bytes = b :: more) (hb : b ≠ byte ']')
    (helement : outcome element (b :: more) = .ok (value, rest)) (within : bytes.length ≤ bound) :
    ∃ within', readElements element bound true done bytes within =
      readElements element bound false (value :: done) rest within' := by
  obtain ⟨hlt, hread⟩ := outcome_eq_ok_iff.mp helement
  have hle : rest.length ≤ bound := by
    have := length_of_skipBlanks h
    simp only [List.length_cons] at hlt
    omega
  refine ⟨hle, ?_⟩
  rw [readElements]
  split
  · next heq => cases h.symm.trans heq
  · next heq =>
      cases h.symm.trans heq
      rw [if_neg hb, if_pos rfl]
      simp only [hread]

/-- Every other element stands behind a comma. -/
theorem readElements_next (h : skipBlanks bytes = byte ',' :: more)
    (hmore : skipBlanks more = b :: behind) (hb : b ≠ byte ']')
    (helement : outcome element (b :: behind) = .ok (value, rest))
    (within : bytes.length ≤ bound) :
    ∃ within', readElements element bound false done bytes within =
      readElements element bound false (value :: done) rest within' := by
  obtain ⟨hlt, hread⟩ := outcome_eq_ok_iff.mp helement
  have hle : rest.length ≤ bound := by
    have := length_of_skipBlanks h
    have := length_of_skipBlanks hmore
    simp only [List.length_cons] at hlt
    omega
  refine ⟨hle, ?_⟩
  rw [readElements]
  split
  · next heq => cases h.symm.trans heq
  · next heq =>
      cases h.symm.trans heq
      rw [if_neg (by decide), if_neg (by decide), if_pos rfl]
      split
      · next heq => cases hmore.symm.trans heq
      · next heq =>
          cases hmore.symm.trans heq
          rw [if_neg hb]
          simp only [hread]

theorem outcome_readList (h : skipBlanks bytes = byte '[' :: more)
    (helements : ∃ hlt, readElements element bytes.length true [] more
      (Nat.le_of_lt (length_of_skipBlanks h)) = .ok ⟨values, rest, hlt⟩) :
    outcome (readList element) bytes = .ok (values, rest) := by
  rw [outcome_eq_ok_iff, readList]
  split
  · next heq => cases h.symm.trans heq
  · next heq =>
      cases h.symm.trans heq
      rw [if_pos rfl]
      exact helements

/-! ## Members of a record -/

theorem outcome_readMember {γ : Type} {member : Reader γ} {value : γ}
    (h : skipBlanks bytes = byte ':' :: more) (hmember : outcome member more = .ok (value, rest)) :
    outcome (readMember member) bytes = .ok (value, rest) := by
  obtain ⟨_, hread⟩ := outcome_eq_ok_iff.mp hmember
  have hcolon : ∃ hlt, readColon bytes = .ok ⟨(), more, hlt⟩ := by
    rw [readColon]
    split
    · next heq => cases h.symm.trans heq
    · next heq =>
        cases h.symm.trans heq
        exact ⟨length_of_skipBlanks h, if_pos rfl⟩
  obtain ⟨_, hcolon⟩ := hcolon
  simp only [outcome, readMember, hcolon, hread]
  rfl

/-- The quote before the key of a member is found behind the bytes from `b` on. -/
def KeyBehind (isFirst : Bool) (b : UInt8) (rest more : List UInt8) : Prop :=
  ∃ hlt, findKey isFirst b rest = .ok ⟨(), more, hlt⟩

theorem keyBehind_first (rest : List UInt8) : KeyBehind true (byte '"') rest rest :=
  ⟨Nat.lt_succ_self _, by rw [findKey, if_pos rfl, if_pos rfl]⟩

theorem keyBehind_next (h : skipBlanks rest = byte '"' :: more) :
    KeyBehind false (byte ',') rest more := by
  refine ⟨Nat.lt_succ_of_lt (length_of_skipBlanks h), ?_⟩
  rw [findKey, if_neg (by decide), if_pos rfl]
  split
  · next heq => cases h.symm.trans heq
  · next heq =>
      cases h.symm.trans heq
      rw [if_pos rfl]

/-- A member whose key is the name of the first field gives its value. -/
theorem readMembers_first {value : α} (second : Option β)
    (h : skipBlanks bytes = b :: more) (hb : b ≠ byte '}')
    (hkey : KeyBehind isFirst b more keyBytes)
    (hname : outcome readText keyBytes = .ok (shape.first, behind))
    (hvalue : outcome (readMember shape.readFirst) behind = .ok (value, rest))
    (within : bytes.length ≤ bound) :
    ∃ within', readMembers shape bound isFirst none second bytes within =
      readMembers shape bound false (some value) second rest within' := by
  obtain ⟨_, hkey⟩ := hkey
  obtain ⟨_, hname⟩ := outcome_eq_ok_iff.mp hname
  obtain ⟨_, hvalue⟩ := outcome_eq_ok_iff.mp hvalue
  have hle : rest.length ≤ bound := by
    have := length_of_skipBlanks h
    omega
  refine ⟨hle, ?_⟩
  rw [readMembers]
  split
  · next heq => cases h.symm.trans heq
  · next heq =>
      cases h.symm.trans heq
      rw [if_neg hb]
      simp only [hkey, hname, hvalue]
      rfl

/-- A member whose key is the name of the second field gives its value. -/
theorem readMembers_second {value : β} (first : Option α)
    (h : skipBlanks bytes = b :: more) (hb : b ≠ byte '}')
    (hkey : KeyBehind isFirst b more keyBytes) (hne : shape.second ≠ shape.first)
    (hname : outcome readText keyBytes = .ok (shape.second, behind))
    (hvalue : outcome (readMember shape.readSecond) behind = .ok (value, rest))
    (within : bytes.length ≤ bound) :
    ∃ within', readMembers shape bound isFirst first none bytes within =
      readMembers shape bound false first (some value) rest within' := by
  obtain ⟨_, hkey⟩ := hkey
  obtain ⟨_, hname⟩ := outcome_eq_ok_iff.mp hname
  obtain ⟨_, hvalue⟩ := outcome_eq_ok_iff.mp hvalue
  have hle : rest.length ≤ bound := by
    have := length_of_skipBlanks h
    omega
  refine ⟨hle, ?_⟩
  rw [readMembers]
  split
  · next heq => cases h.symm.trans heq
  · next heq =>
      cases h.symm.trans heq
      rw [if_neg hb]
      simp only [hkey, hname, if_neg hne, hvalue]
      rfl

/-- A member with another key gives nothing. -/
theorem readMembers_other {name : String} {first : Option α} {second : Option β}
    (h : skipBlanks bytes = b :: more) (hb : b ≠ byte '}')
    (hkey : KeyBehind isFirst b more keyBytes) (hfirst : name ≠ shape.first)
    (hsecond : name ≠ shape.second) (hname : outcome readText keyBytes = .ok (name, behind))
    (hvalue : outcome (readMember skipValue) behind = .ok ((), rest))
    (within : bytes.length ≤ bound) :
    ∃ within', readMembers shape bound isFirst first second bytes within =
      readMembers shape bound false first second rest within' := by
  obtain ⟨_, hkey⟩ := hkey
  obtain ⟨_, hname⟩ := outcome_eq_ok_iff.mp hname
  obtain ⟨_, hvalue⟩ := outcome_eq_ok_iff.mp hvalue
  have hle : rest.length ≤ bound := by
    have := length_of_skipBlanks h
    omega
  refine ⟨hle, ?_⟩
  rw [readMembers]
  split
  · next heq => cases h.symm.trans heq
  · next heq =>
      cases h.symm.trans heq
      rw [if_neg hb]
      simp only [hkey, hname, if_neg hfirst, if_neg hsecond, hvalue]

/-- A record ends at its closing brace, where it has both fields. -/
theorem readMembers_end {x : α} {y : β} (h : skipBlanks bytes = byte '}' :: rest)
    (within : bytes.length ≤ bound) :
    ∃ hlt, readMembers shape bound isFirst (some x) (some y) bytes within =
      .ok ⟨(x, y), rest, hlt⟩ := by
  refine ⟨length_of_brace h within, ?_⟩
  rw [readMembers]
  split
  · next heq => cases h.symm.trans heq
  · next heq =>
      cases h.symm.trans heq
      rw [if_pos rfl]

theorem outcome_readRecord {x : α} {y : β} (h : skipBlanks bytes = byte '{' :: more)
    (hmembers : ∃ hlt, readMembers shape bytes.length true none none more
      (Nat.le_of_lt (length_of_skipBlanks h)) = .ok ⟨(x, y), rest, hlt⟩) :
    outcome (readRecord shape) bytes = .ok ((x, y), rest) := by
  rw [outcome_eq_ok_iff, readRecord]
  split
  · next heq => cases h.symm.trans heq
  · next heq =>
      cases h.symm.trans heq
      rw [if_neg (by decide), if_pos rfl]
      exact hmembers

end SentenceGuide.Json
