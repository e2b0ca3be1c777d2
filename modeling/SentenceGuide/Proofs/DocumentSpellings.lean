import SentenceGuide.Json.Document
import SentenceGuide.Proofs.SkippedValues

/-!
# Spellings of a grammar as a document

A document spells a grammar as a record of a text and a list of productions, and so on
down to the texts and flags of symbols (`DocumentSpelled`).  Blanks may stand between any
two parts.  A record is an array of its two values, or an object.  An object has each of
the two fields once, in any order, among members with other keys (`RecordSpelled`).

A reader reads what is spelled if it takes every spelling of a value as that value, with
blanks before it, and takes nothing else (`Reads`).  Texts and flags are read, and so are
lists if their elements are.
-/

namespace SentenceGuide.Json

/-! ## Values -/

/-- The ways to write a text. -/
inductive Quoted : String → List UInt8 → Prop where
  | mk {s : String} {spelling : List UInt8} : TextSpelled s.toList spelling →
      Quoted s (byte '"' :: (spelling ++ [byte '"']))

/-- The way to write a flag. -/
inductive FlagSpelled : Bool → List UInt8 → Prop where
  | true : FlagSpelled true (['t', 'r', 'u', 'e'].map byte)
  | false : FlagSpelled false (['f', 'a', 'l', 's', 'e'].map byte)

variable {α β : Type}

/-- What may follow an item: further items, with commas before them. -/
inductive Following (S : α → List UInt8 → Prop) : List α → List UInt8 → Prop where
  | last {gap : List UInt8} : Blanks gap → Following S [] gap
  | next {value : α} {values : List α} {before behind core more : List UInt8} : Blanks before →
      Blanks behind → S value core → Following S values more →
      Following S (value :: values) (before ++ byte ',' :: (behind ++ (core ++ more)))

/-- Items with commas between them. -/
inductive Items (S : α → List UInt8 → Prop) : List α → List UInt8 → Prop where
  | empty {gap : List UInt8} : Blanks gap → Items S [] gap
  | first {value : α} {values : List α} {gap core more : List UInt8} : Blanks gap →
      S value core → Following S values more →
      Items S (value :: values) (gap ++ (core ++ more))

/-- The ways to write a list. -/
inductive ListSpelled (S : α → List UInt8 → Prop) : List α → List UInt8 → Prop where
  | mk {values : List α} {inside : List UInt8} : Items S values inside →
      ListSpelled S values (byte '[' :: (inside ++ [byte ']']))

/-! ## Records -/

/-- What a member of an object gives: the value of a field, or nothing. -/
inductive Member (α β : Type) where
  | first (value : α)
  | second (value : β)
  | other

namespace Member

/-- The value of the first field. -/
def first? : Member α β → Option α
  | first value => some value
  | _ => none

/-- The value of the second field. -/
def second? : Member α β → Option β
  | second value => some value
  | _ => none

end Member

/-- A key, a colon and a value. -/
inductive Keyed (name : String) (V : List UInt8 → Prop) : List UInt8 → Prop where
  | mk {spelling before behind core : List UInt8} : TextSpelled name.toList spelling →
      Blanks before → Blanks behind → V core →
      Keyed name V
        (byte '"' :: (spelling ++ byte '"' :: (before ++ byte ':' :: (behind ++ core))))

/-- The ways to write a member of an object that has two fields of given names. -/
inductive MemberSpelled (first second : String) (S : α → List UInt8 → Prop)
    (T : β → List UInt8 → Prop) : Member α β → List UInt8 → Prop where
  | first {value : α} {core : List UInt8} : Keyed first (S value) core →
      MemberSpelled first second S T (.first value) core
  | second {value : β} {core : List UInt8} : Keyed second (T value) core →
      MemberSpelled first second S T (.second value) core
  | other {name : String} {core : List UInt8} : name ≠ first → name ≠ second →
      Keyed name (Form .value) core → MemberSpelled first second S T .other core

/-- The ways to write a record of two fields of given names. -/
inductive RecordSpelled (first second : String) (S : α → List UInt8 → Prop)
    (T : β → List UInt8 → Prop) (x : α) (y : β) : List UInt8 → Prop where
  | array {before core behind before' core' behind' : List UInt8} : Blanks before → S x core →
      Blanks behind → Blanks before' → T y core' → Blanks behind' →
      RecordSpelled first second S T x y
        (byte '[' :: (before ++ (core ++ (behind ++ byte ',' ::
          (before' ++ (core' ++ (behind' ++ [byte ']'])))))))
  | object {members : List (Member α β)} {inside : List UInt8} :
      Items (MemberSpelled first second S T) members inside →
      members.filterMap Member.first? = [x] → members.filterMap Member.second? = [y] →
      RecordSpelled first second S T x y (byte '{' :: (inside ++ [byte '}']))

/-! ## Grammars -/

/-- The ways to write a symbol. -/
def SymbolSpelled (s : Symbol) : List UInt8 → Prop :=
  RecordSpelled "text" "isTerminal" Quoted FlagSpelled s.text s.isTerminal

/-- The ways to write a production. -/
def ProductionSpelled (p : Production) : List UInt8 → Prop :=
  RecordSpelled "lhs" "rhs" Quoted (ListSpelled SymbolSpelled) p.lhs p.rhs

/-- The ways to write a grammar. -/
def GrammarSpelled (g : Grammar) : List UInt8 → Prop :=
  RecordSpelled "start" "productions" Quoted (ListSpelled ProductionSpelled) g.start g.productions

/-- A document that spells a grammar has nothing but blanks around it. -/
def DocumentSpelled (g : Grammar) (bytes : List UInt8) : Prop :=
  ∃ before core behind, Blanks before ∧ GrammarSpelled g core ∧ Blanks behind ∧
    bytes = before ++ (core ++ behind)

/-! ## Readers of what is spelled -/

/-- A reader takes the spellings of a value as that value, and takes nothing else.  A
spelling does not begin with a blank or a closing bracket. -/
structure Reads (read : Reader α) (S : α → List UInt8 → Prop) : Prop where
  visible {value : α} {core : List UInt8} : S value core →
    ∃ b tail, core = b :: tail ∧ isBlank b = false ∧ b ≠ byte ']'
  takes {value : α} {gap core : List UInt8} (rest : List UInt8) : Blanks gap → S value core →
    outcome read (gap ++ (core ++ rest)) = .ok (value, rest)
  sound {value : α} {bytes rest : List UInt8} : outcome read bytes = .ok (value, rest) →
    ∃ gap core, Blanks gap ∧ S value core ∧ bytes = gap ++ (core ++ rest)

variable {read : Reader α} {element : Reader α} {S : α → List UInt8 → Prop}
  {bytes rest more gap core inside : List UInt8} {b : UInt8} {bound : Nat} {value : α}
  {done values : List α} {isFirst : Bool}

/-- A spelling with blanks before it is found at its first byte, and taken from there. -/
theorem Reads.found (h : Reads read S) (hgap : Blanks gap) (hcore : S value core)
    (rest : List UInt8) :
    ∃ b more, skipBlanks (gap ++ (core ++ rest)) = b :: more ∧ b ≠ byte ']' ∧
      outcome read (b :: more) = .ok (value, rest) := by
  obtain ⟨b, tail, heq, hblank, hb⟩ := h.visible hcore
  have htakes := h.takes rest blanks_nil hcore
  subst heq
  exact ⟨b, tail ++ rest, skipBlanks_gap hgap hblank _, hb, htakes⟩

/-- A reader that gives another value for each reads that value. -/
theorem Reads.map {f : α → β} (h : Reads read S) (back : β → α) (hf : ∀ y, f (back y) = y)
    (hback : ∀ x, back (f x) = x) : Reads (mapReader f read) (fun y => S (back y)) where
  visible := h.visible
  takes {y} {gap core} rest hgap hcore := by
    obtain ⟨_, hread⟩ := outcome_eq_ok_iff.mp (h.takes rest hgap hcore)
    simp only [outcome, mapReader, hread]
    exact congrArg (fun y => Except.ok (y, rest)) (hf y)
  sound {y} {bytes rest} hread := by
    cases hinner : read bytes with
    | error fault =>
        rw [outcome, mapReader, hinner] at hread
        cases hread
    | ok r =>
        rw [outcome, mapReader, hinner] at hread
        cases hread
        have hsound := h.sound (outcome_of_eq_ok hinner)
        rwa [← hback r.value] at hsound

/-! ### Texts and flags -/

theorem reads_string : Reads readString Quoted where
  visible h := by
    obtain ⟨_⟩ := h
    exact ⟨byte '"', _, rfl, by decide, by decide⟩
  takes rest hgap h := by
    obtain ⟨hspelling⟩ := h
    rw [enclosed_append, outcome_readString (skipBlanks_gap hgap (by decide) _)]
    exact outcome_readText_iff.mpr ⟨_, hspelling, rfl⟩
  sound {s bytes rest} h := by
    obtain ⟨_, hread⟩ := outcome_eq_ok_iff.mp h
    rw [readString] at hread
    split at hread
    · cases hread
    next b more hvisible =>
    split at hread
    · next hb =>
        subst hb
        rw [outcome_readString hvisible] at h
        obtain ⟨gap, hgap, hbytes⟩ := blanks_of_skipBlanks hvisible
        obtain ⟨spelling, hspelling, hmore⟩ := outcome_readText_iff.mp h
        exact ⟨gap, _, hgap, .mk hspelling, by rw [enclosed_append, hbytes, hmore]⟩
    · cases hread

theorem reads_flag : Reads readFlag FlagSpelled where
  visible h := by
    cases h with
    | true => exact ⟨byte 't', _, rfl, by decide, by decide⟩
    | false => exact ⟨byte 'f', _, rfl, by decide, by decide⟩
  takes rest hgap h := by
    cases h with
    | true =>
        exact outcome_readFlag_true (skipBlanks_gap hgap (by decide) _)
          (readWord_append ['r', 'u', 'e'] rest)
    | false =>
        exact outcome_readFlag_false (skipBlanks_gap hgap (by decide) _)
          (readWord_append ['a', 'l', 's', 'e'] rest)
  sound {flag bytes rest} h := by
    obtain ⟨_, h⟩ := outcome_eq_ok_iff.mp h
    rw [readFlag] at h
    split at h
    · cases h
    next b more hvisible =>
    obtain ⟨gap, hgap, hbytes⟩ := blanks_of_skipBlanks hvisible
    dsimp only at h
    split at h
    · next hb =>
        split at h
        · cases h
        next hword =>
        cases h
        exact ⟨gap, _, hgap, .true, by rw [hbytes, hb, eq_append_of_readWord hword]; rfl⟩
    split at h
    · next hb =>
        split at h
        · cases h
        next hword =>
        cases h
        exact ⟨gap, _, hgap, .false, by rw [hbytes, hb, eq_append_of_readWord hword]; rfl⟩
    · cases h

/-! ### Lists -/

/-- What is inside brackets from the first item on, or behind an item. -/
def Inside (isFirst : Bool) (S : α → List UInt8 → Prop) : List α → List UInt8 → Prop :=
  match isFirst with
  | true => Items S
  | false => Following S

theorem inside_nil (h : Blanks gap) : Inside isFirst S [] gap := by
  cases isFirst with
  | true => exact .empty h
  | false => exact .last h

theorem Blanks.append {gap' : List UInt8} (h : Blanks gap) (h' : Blanks gap') :
    Blanks (gap ++ gap') := by
  intro b hb
  rcases List.mem_append.mp hb with hb | hb
  · exact h b hb
  · exact h' b hb

theorem inside_of_readElements (hS : Reads element S) {within : bytes.length ≤ bound}
    {r : Reading (List α) bound}
    (h : readElements element bound isFirst done bytes within = .ok r) :
    ∃ values inside, r.value = done.reverse ++ values ∧ Inside isFirst S values inside ∧
      bytes = inside ++ byte ']' :: r.rest := by
  fun_induction readElements element bound isFirst done bytes within with
  | case1 => cases h
  | case2 isFirst done bytes within rest hcloser _ =>
      cases h
      obtain ⟨gap, hgap, hbytes⟩ := blanks_of_skipBlanks hcloser
      exact ⟨[], gap, by simp, inside_nil hgap, hbytes⟩
  | case3 => cases h
  | case4 done bytes within b rest hb _ _ element hread _ ih =>
      obtain ⟨values, more, hvalues, hmore, hrest⟩ := ih h
      obtain ⟨gap, hgap, hbytes⟩ := blanks_of_skipBlanks hb
      obtain ⟨gap', core, hgap', hcore, hcoreBytes⟩ := hS.sound (outcome_of_eq_ok hread)
      refine ⟨_ :: values, _, ?_, .first (hgap.append hgap') hcore hmore, ?_⟩
      · rw [hvalues]
        simp
      · rw [hbytes, hcoreBytes, hrest]
        simp
  | case5 => cases h
  | case6 => cases h
  | case7 => cases h
  | case8 isFirst done bytes within rest hfirst b more hb _ _ element hread _ hcomma _ _ ih =>
      obtain ⟨values, following, hvalues, hfollowing, hrest⟩ := ih h
      obtain ⟨before, hbefore, hbytes⟩ := blanks_of_skipBlanks hcomma
      obtain ⟨behind, hbehind, hmore⟩ := blanks_of_skipBlanks hb
      obtain ⟨gap, core, hgap, hcore, hcoreBytes⟩ := hS.sound (outcome_of_eq_ok hread)
      obtain rfl : isFirst = false := by simpa using hfirst
      refine ⟨_ :: values, _, ?_, .next hbefore (hbehind.append hgap) hcore hfollowing, ?_⟩
      · rw [hvalues]
        simp
      · rw [hbytes, hmore, hcoreBytes, hrest]
        simp
  | case9 => cases h

theorem readElements_following (hS : Reads element S) (h : Following S values inside)
    (within : (inside ++ byte ']' :: rest).length ≤ bound) :
    ∃ hlt, readElements element bound false done (inside ++ byte ']' :: rest) within =
      .ok ⟨done.reverse ++ values, rest, hlt⟩ := by
  induction h generalizing done with
  | last hgap =>
      rw [List.append_nil]
      exact readElements_end (skipBlanks_gap hgap (by decide) rest) within
  | @next value values before behind core more hbefore hbehind hcore _ ih =>
      have heq : before ++ byte ',' :: (behind ++ (core ++ more)) ++ byte ']' :: rest =
          before ++ byte ',' :: (behind ++ (core ++ (more ++ byte ']' :: rest))) := by simp
      simp only [heq] at within ⊢
      obtain ⟨b, tail, hvisible, hb, hread⟩ :=
        hS.found hbehind hcore (more ++ byte ']' :: rest)
      obtain ⟨within', hstep⟩ := readElements_next (skipBlanks_gap hbefore (by decide) _) hvisible
        hb hread within
      rw [hstep]
      obtain ⟨hlt, hrest⟩ := ih within'
      exact ⟨hlt, by rw [hrest, List.reverse_cons, List.append_assoc, List.singleton_append]⟩

theorem readElements_items (hS : Reads element S) (h : Items S values inside)
    (within : (inside ++ byte ']' :: rest).length ≤ bound) :
    ∃ hlt, readElements element bound true [] (inside ++ byte ']' :: rest) within =
      .ok ⟨values, rest, hlt⟩ := by
  cases h with
  | empty hgap => exact readElements_end (skipBlanks_gap hgap (by decide) rest) within
  | @first value values gap core more hgap hcore hmore =>
      have heq : gap ++ (core ++ more) ++ byte ']' :: rest =
          gap ++ (core ++ (more ++ byte ']' :: rest)) := by simp
      simp only [heq] at within ⊢
      obtain ⟨b, tail, hvisible, hb, hread⟩ := hS.found hgap hcore (more ++ byte ']' :: rest)
      obtain ⟨within', hstep⟩ := readElements_first hvisible hb hread within
      rw [hstep]
      exact readElements_following hS hmore within'

theorem reads_list (hS : Reads element S) : Reads (readList element) (ListSpelled S) where
  visible h := by
    obtain ⟨_⟩ := h
    exact ⟨byte '[', _, rfl, by decide, by decide⟩
  takes {values gap core} rest hgap h := by
    obtain ⟨hinside⟩ := h
    rw [enclosed_append]
    exact outcome_readList (skipBlanks_gap hgap (by decide) _) (readElements_items hS hinside _)
  sound {values bytes rest} h := by
    obtain ⟨_, h⟩ := outcome_eq_ok_iff.mp h
    rw [readList] at h
    split at h
    · cases h
    next b more hvisible =>
    split at h
    · next hb =>
        obtain ⟨gap, hgap, hbytes⟩ := blanks_of_skipBlanks hvisible
        obtain ⟨values', inside, hvalues, hinside, hmore⟩ := inside_of_readElements hS h
        obtain rfl : values = values' := hvalues
        exact ⟨gap, _, hgap, .mk hinside, by rw [enclosed_append, hbytes, hb, hmore]⟩
    · cases h

end SentenceGuide.Json
