import SentenceGuide.Loading
import SentenceGuide.Proofs.Documents
import SentenceGuide.Proofs.DocumentSpellings

/-!
# Documents that are accepted

A record is read from each of its spellings, and from nothing else (`reads_record`).  The
members of an object are read one after the other, with the fields that have been given so
far.  What those fields and the members to come give is the one value of each field: that
is what carries the induction over the members.

Grammars are records of texts and of lists of records, so a text is read as a grammar
exactly if it spells that grammar (`parse_eq_ok_iff`).
-/

namespace SentenceGuide.Json

open Text.Utf8 (encode)

variable {α β : Type} {shape : Shape α β} {S : α → List UInt8 → Prop} {T : β → List UInt8 → Prop}
  {bytes rest more gap core inside keyBytes : List UInt8} {b : UInt8} {bound : Nat} {x : α} {y : β}
  {first : Option α} {second : Option β} {isFirst : Bool} {member : Member α β}
  {members : List (Member α β)}

/-! ## Members that are read -/

theorem behind_colon_of_readMember {γ : Type} {value : Reader γ} {v : γ}
    (h : outcome (readMember value) bytes = .ok (v, rest)) :
    ∃ more, skipBlanks bytes = byte ':' :: more ∧ outcome value more = .ok (v, rest) := by
  obtain ⟨_, h⟩ := outcome_eq_ok_iff.mp h
  rw [readMember] at h
  split at h
  · cases h
  next colon hcolon =>
  cases hvalue : value colon.rest with
  | error fault =>
      rw [hvalue] at h
      cases h
  | ok r =>
      rw [hvalue] at h
      cases h
      rw [readColon] at hcolon
      split at hcolon
      · cases hcolon
      next b more hvisible =>
      split at hcolon
      · next hb =>
          cases hcolon
          exact ⟨more, hb ▸ hvisible, outcome_of_eq_ok hvalue⟩
      · cases hcolon

/-- A text that is read as a key, and what is read behind it, are a member. -/
theorem keyed_of_readMember {γ : Type} {value : Reader γ} {v : γ} {name : String}
    {V : List UInt8 → Prop} {behind : List UInt8}
    (hV : ∀ {bytes}, outcome value bytes = .ok (v, rest) →
      ∃ gap core, Blanks gap ∧ V core ∧ bytes = gap ++ (core ++ rest))
    (hname : outcome readText keyBytes = .ok (name, behind))
    (hvalue : outcome (readMember value) behind = .ok (v, rest)) :
    ∃ core, Keyed name V core ∧ byte '"' :: keyBytes = core ++ rest := by
  obtain ⟨spelling, hspelling, hkey⟩ := outcome_readText_iff.mp hname
  obtain ⟨more, hcolon, hmore⟩ := behind_colon_of_readMember hvalue
  obtain ⟨before, hbefore, hbehind⟩ := blanks_of_skipBlanks hcolon
  obtain ⟨gap, core, hgap, hcore, hbytes⟩ := hV hmore
  refine ⟨_, .mk hspelling hbefore hgap hcore, ?_⟩
  rw [hkey, hbehind, hbytes]
  simp

/-- A member is one more item inside the braces. -/
theorem inside_of_findKey {U : Member α β → List UInt8 → Prop} {tail : List UInt8}
    {start : Reading Unit (rest.length + 1)} (h : skipBlanks bytes = b :: rest)
    (hkey : findKey isFirst b rest = .ok start) (hmember : U member core)
    (hcore : byte '"' :: start.rest = core ++ (more ++ tail)) (hmore : Following U members more) :
    ∃ inside, Inside isFirst U (member :: members) inside ∧ bytes = inside ++ tail := by
  obtain ⟨before, hbefore, hbytes⟩ := blanks_of_skipBlanks h
  rw [findKey] at hkey
  cases isFirst with
  | true =>
      rw [if_pos rfl] at hkey
      split at hkey
      · next hb =>
          cases hkey
          refine ⟨_, .first hbefore hmember hmore, ?_⟩
          rw [hbytes, hb, hcore]
          simp
      · cases hkey
  | false =>
      rw [if_neg (by decide)] at hkey
      split at hkey
      · next hb =>
          split at hkey
          · cases hkey
          next c more' hvisible =>
          split at hkey
          · next hc =>
              cases hkey
              obtain ⟨behind, hbehind, hrest⟩ := blanks_of_skipBlanks hvisible
              refine ⟨_, .next hbefore hbehind hmember hmore, ?_⟩
              rw [hbytes, hb, hrest, hc, hcore]
              simp
          split at hkey
          · cases hkey
          · cases hkey
      · cases hkey

/-- What is read inside braces is members that give each field once, where the fields that
are given already count. -/
theorem members_of_readMembers (hS : Reads shape.readFirst S) (hT : Reads shape.readSecond T)
    {within : bytes.length ≤ bound} {r : Reading (α × β) bound}
    (h : readMembers shape bound isFirst first second bytes within = .ok r) :
    ∃ members inside, Inside isFirst (MemberSpelled shape.first shape.second S T) members inside ∧
      bytes = inside ++ byte '}' :: r.rest ∧
      first.toList ++ members.filterMap Member.first? = [r.value.1] ∧
      second.toList ++ members.filterMap Member.second? = [r.value.2] := by
  fun_induction readMembers shape bound isFirst first second bytes within with
  | case2 isFirst bytes within rest x y hcloser =>
      cases h
      obtain ⟨gap, hgap, hbytes⟩ := blanks_of_skipBlanks hcloser
      exact ⟨[], gap, inside_nil hgap, hbytes, rfl, rfl⟩
  | case9 isFirst first second bytes within b rest hb _ start hstart key hkey hname hfirst v hv
      ih =>
      obtain ⟨members, more, hmore, hrest, hfirsts, hseconds⟩ := ih h
      obtain ⟨core, hcore, hbytes⟩ :=
        keyed_of_readMember hS.sound (hname ▸ outcome_of_eq_ok hkey) (outcome_of_eq_ok hv)
      rw [hrest] at hbytes
      obtain ⟨inside, hinside, hbytes⟩ :=
        inside_of_findKey hb hstart (MemberSpelled.first hcore) hbytes hmore
      obtain rfl : first = none := by simpa using hfirst
      exact ⟨_, inside, hinside, hbytes, hfirsts, hseconds⟩
  | case12 isFirst first second bytes within b rest hb _ start hstart key hkey _ hname hsecond v
      hv ih =>
      obtain ⟨members, more, hmore, hrest, hfirsts, hseconds⟩ := ih h
      obtain ⟨core, hcore, hbytes⟩ :=
        keyed_of_readMember hT.sound (hname ▸ outcome_of_eq_ok hkey) (outcome_of_eq_ok hv)
      rw [hrest] at hbytes
      obtain ⟨inside, hinside, hbytes⟩ :=
        inside_of_findKey hb hstart (MemberSpelled.second hcore) hbytes hmore
      obtain rfl : second = none := by simpa using hsecond
      exact ⟨_, inside, hinside, hbytes, hfirsts, hseconds⟩
  | case14 isFirst first second bytes within b rest hb _ start hstart key hkey hfirst hsecond v
      hv ih =>
      obtain ⟨members, more, hmore, hrest, hfirsts, hseconds⟩ := ih h
      obtain ⟨core, hcore, hbytes⟩ :=
        keyed_of_readMember form_of_skipValue (outcome_of_eq_ok hkey) (outcome_of_eq_ok hv)
      rw [hrest] at hbytes
      obtain ⟨inside, hinside, hbytes⟩ :=
        inside_of_findKey hb hstart (MemberSpelled.other hfirst hsecond hcore) hbytes hmore
      exact ⟨_, inside, hinside, hbytes, hfirsts, hseconds⟩
  | _ => cases h

/-! ## Spellings of members -/

theorem Following.ends {U : Member α β → List UInt8 → Prop} (h : Following U members more)
    (rest : List UInt8) : Ends (more ++ byte '}' :: rest) := by
  cases h with
  | last hgap => exact ends_blanks hgap (ends_closer .object rest)
  | next hbefore _ _ _ =>
      rw [List.append_assoc]
      exact ends_blanks hbefore (ends_cons (by decide) (by decide) (by decide) _)

/-- A key and its value are read, whatever reads the value. -/
theorem Keyed.read {γ : Type} {value : Reader γ} {v : γ} {name : String}
    {V : List UInt8 → Prop} (h : Keyed name V core)
    (hV : ∀ {gap core}, Blanks gap → V core →
      outcome value (gap ++ (core ++ rest)) = .ok (v, rest)) :
    ∃ keyBytes behind, core ++ rest = byte '"' :: keyBytes ∧
      outcome readText keyBytes = .ok (name, behind) ∧
      outcome (readMember value) behind = .ok (v, rest) := by
  obtain ⟨hspelling, hbefore, hbehind, hcore⟩ := h
  refine ⟨_, _, rfl, outcome_readText_iff.mpr ⟨_, hspelling, ?_⟩,
    outcome_readMember (skipBlanks_gap hbefore (by decide) _) (hV hbehind hcore)⟩
  simp

/-- A member gives the value of its field, if that was not given, and is passed over if it
has another key. -/
theorem readMembers_member (hS : Reads shape.readFirst S) (hT : Reads shape.readSecond T)
    (hne : shape.second ≠ shape.first)
    (hmember : MemberSpelled shape.first shape.second S T member core) (hrest : Ends rest)
    (hfirst : member.first?.isSome → first = none)
    (hsecond : member.second?.isSome → second = none) (h : skipBlanks bytes = b :: more)
    (hb : b ≠ byte '}') (hkey : KeyBehind isFirst b more keyBytes)
    (hcore : byte '"' :: keyBytes = core ++ rest) (within : bytes.length ≤ bound) :
    ∃ within', readMembers shape bound isFirst first second bytes within =
      readMembers shape bound false (member.first?.or first) (member.second?.or second) rest
        within' := by
  cases hmember with
  | first hkeyed =>
      obtain ⟨_, _, hbytes, hname, hvalue⟩ := hkeyed.read (hS.takes rest)
      cases hcore.trans hbytes
      obtain rfl := hfirst rfl
      exact readMembers_first second h hb hkey hname hvalue within
  | second hkeyed =>
      obtain ⟨_, _, hbytes, hname, hvalue⟩ := hkeyed.read (hT.takes rest)
      cases hcore.trans hbytes
      obtain rfl := hsecond rfl
      exact readMembers_second first h hb hkey hne hname hvalue within
  | other hother hother' hkeyed =>
      obtain ⟨_, _, hbytes, hname, hvalue⟩ := hkeyed.read
        fun hgap hform => outcome_skipValue hgap hform hrest
      cases hcore.trans hbytes
      exact readMembers_other h hb hkey hother hother' hname hvalue within

theorem MemberSpelled.exists_quote {first second : String}
    (h : MemberSpelled first second S T member core) : ∃ tail, core = byte '"' :: tail := by
  cases h with
  | first hkeyed => exact hkeyed.casesOn fun _ _ _ _ => ⟨_, rfl⟩
  | second hkeyed => exact hkeyed.casesOn fun _ _ _ _ => ⟨_, rfl⟩
  | other _ _ hkeyed => exact hkeyed.casesOn fun _ _ _ _ => ⟨_, rfl⟩

/-- If a field gets one value in all, the first of the members gives it or leaves it. -/
theorem given_cons {γ : Type} {field : Member α β → Option γ} {v : γ} (given : Option γ)
    (h : given.toList ++ (member :: members).filterMap field = [v]) :
    ((field member).isSome → given = none) ∧
      ((field member).or given).toList ++ members.filterMap field = [v] := by
  cases hfield : field member with
  | none =>
      rw [List.filterMap_cons_none hfield] at h
      exact ⟨nofun, h⟩
  | some u =>
      rw [List.filterMap_cons_some hfield] at h
      cases given with
      | none => exact ⟨fun _ => rfl, h⟩
      | some w => simp at h

theorem readMembers_following (hS : Reads shape.readFirst S) (hT : Reads shape.readSecond T)
    (hne : shape.second ≠ shape.first)
    (h : Following (MemberSpelled shape.first shape.second S T) members inside)
    (hfirsts : first.toList ++ members.filterMap Member.first? = [x])
    (hseconds : second.toList ++ members.filterMap Member.second? = [y])
    (within : (inside ++ byte '}' :: rest).length ≤ bound) :
    ∃ hlt, readMembers shape bound false first second (inside ++ byte '}' :: rest) within =
      .ok ⟨(x, y), rest, hlt⟩ := by
  induction h generalizing first second with
  | last hgap =>
      obtain rfl : first = some x := by simpa using hfirsts
      obtain rfl : second = some y := by simpa using hseconds
      exact readMembers_end (skipBlanks_gap hgap (by decide) rest) within
  | @next member members before behind core more hbefore hbehind hmember hmore ih =>
      obtain ⟨tail, rfl⟩ := hmember.exists_quote
      obtain ⟨hfirst, hfirsts⟩ := given_cons first hfirsts
      obtain ⟨hsecond, hseconds⟩ := given_cons second hseconds
      have heq : before ++ byte ',' :: (behind ++ (byte '"' :: tail ++ more)) ++ byte '}' :: rest =
          before ++ byte ',' :: (behind ++ byte '"' :: (tail ++ (more ++ byte '}' :: rest))) := by
        simp
      simp only [heq] at within ⊢
      obtain ⟨within', hstep⟩ :=
        readMembers_member hS hT hne hmember (hmore.ends rest) hfirst hsecond
        (skipBlanks_gap hbefore (by decide) _) (by decide)
        (keyBehind_next (skipBlanks_gap hbehind (by decide) _)) List.cons_append.symm
        within
      rw [hstep]
      exact ih hfirsts hseconds within'

theorem readMembers_items (hS : Reads shape.readFirst S) (hT : Reads shape.readSecond T)
    (hne : shape.second ≠ shape.first)
    (h : Items (MemberSpelled shape.first shape.second S T) members inside)
    (hfirsts : members.filterMap Member.first? = [x])
    (hseconds : members.filterMap Member.second? = [y])
    (within : (inside ++ byte '}' :: rest).length ≤ bound) :
    ∃ hlt, readMembers shape bound true none none (inside ++ byte '}' :: rest) within =
      .ok ⟨(x, y), rest, hlt⟩ := by
  cases h with
  | empty _ => cases hfirsts
  | @first member members gap core more hgap hmember hmore =>
      obtain ⟨tail, rfl⟩ := hmember.exists_quote
      obtain ⟨hfirst, hfirsts⟩ := given_cons none hfirsts
      obtain ⟨hsecond, hseconds⟩ := given_cons none hseconds
      have heq : gap ++ (byte '"' :: tail ++ more) ++ byte '}' :: rest =
          gap ++ byte '"' :: (tail ++ (more ++ byte '}' :: rest)) := by simp
      simp only [heq] at within ⊢
      obtain ⟨within', hstep⟩ :=
        readMembers_member hS hT hne hmember (hmore.ends rest) hfirst hsecond
        (skipBlanks_gap hgap (by decide) _) (by decide) (keyBehind_first _)
        List.cons_append.symm within
      rw [hstep]
      exact readMembers_following hS hT hne hmore hfirsts hseconds within'

/-! ## Records that are arrays -/

theorem outcome_readArrayEnd_iff :
    outcome readArrayEnd bytes = .ok ((), rest) ↔ skipBlanks bytes = byte ']' :: rest := by
  rw [outcome_eq_ok_iff]
  constructor
  · rintro ⟨_, h⟩
    rw [readArrayEnd] at h
    split at h
    · cases h
    next b more hvisible =>
    split at h
    · next hb =>
        cases h
        rw [hvisible, hb]
    split at h
    · split at h
      · cases h
      split at h
      · cases h
      · cases h
    · cases h
  · intro h
    refine ⟨length_of_skipBlanks h, ?_⟩
    rw [readArrayEnd]
    split
    · next heq => cases h.symm.trans heq
    · next heq =>
        cases h.symm.trans heq
        exact if_pos rfl

theorem outcome_readSecondElement_iff :
    outcome (readSecondElement shape) bytes = .ok (y, rest) ↔
      ∃ more b behind, skipBlanks bytes = byte ',' :: more ∧ skipBlanks more = b :: behind ∧
        b ≠ byte ']' ∧ outcome shape.readSecond (b :: behind) = .ok (y, rest) := by
  rw [outcome_eq_ok_iff]
  constructor
  · rintro ⟨_, h⟩
    rw [readSecondElement] at h
    split at h
    · cases h
    next b more hvisible =>
    split at h
    · cases h
    split at h
    · next hb =>
        split at h
        · cases h
        next c behind hmore =>
        split at h
        · cases h
        next hc =>
        cases hread : shape.readSecond (c :: behind) with
        | error fault =>
            rw [hread] at h
            cases h
        | ok r =>
            rw [hread] at h
            cases h
            exact ⟨more, c, behind, hb ▸ hvisible, hmore, hc, outcome_of_eq_ok hread⟩
    · cases h
  · rintro ⟨more, b, behind, hvisible, hmore, hb, hread⟩
    obtain ⟨hlt, hread⟩ := outcome_eq_ok_iff.mp hread
    refine ⟨?_, ?_⟩
    · have := length_of_skipBlanks hvisible
      have := length_of_skipBlanks hmore
      simp only [List.length_cons] at hlt
      omega
    · rw [readSecondElement]
      split
      · next heq => cases hvisible.symm.trans heq
      · next heq =>
          cases hvisible.symm.trans heq
          rw [if_neg (by decide), if_pos rfl]
          split
          · next heq => cases hmore.symm.trans heq
          · next heq =>
              cases hmore.symm.trans heq
              rw [if_neg hb, hread]
              rfl

theorem outcome_readPair_iff :
    outcome (readPair shape) bytes = .ok ((x, y), rest) ↔
      ∃ b more behind left, skipBlanks bytes = b :: more ∧ b ≠ byte ']' ∧
        outcome shape.readFirst (b :: more) = .ok (x, behind) ∧
        outcome (readSecondElement shape) behind = .ok (y, left) ∧
        outcome readArrayEnd left = .ok ((), rest) := by
  rw [outcome_eq_ok_iff]
  constructor
  · rintro ⟨_, h⟩
    rw [readPair] at h
    split at h
    · cases h
    next b more hvisible =>
    split at h
    · cases h
    next hb =>
    split at h
    · cases h
    next hfirst =>
    split at h
    · cases h
    next hsecond =>
    split at h
    · cases h
    next hend =>
    cases h
    exact ⟨b, more, _, _, hvisible, hb, outcome_of_eq_ok hfirst, outcome_of_eq_ok hsecond,
      outcome_of_eq_ok hend⟩
  · rintro ⟨b, more, behind, left, hvisible, hb, hfirst, hsecond, hend⟩
    obtain ⟨hlt, hfirst⟩ := outcome_eq_ok_iff.mp hfirst
    obtain ⟨hlt', hsecond⟩ := outcome_eq_ok_iff.mp hsecond
    obtain ⟨hlt'', hend⟩ := outcome_eq_ok_iff.mp hend
    refine ⟨?_, ?_⟩
    · have := length_of_skipBlanks hvisible
      simp only [List.length_cons] at hlt
      omega
    · rw [readPair]
      split
      · next heq => cases hvisible.symm.trans heq
      · next heq =>
          cases hvisible.symm.trans heq
          rw [if_neg hb]
          simp only [hfirst, hsecond, hend]

/-! ## Records -/

theorem outcome_readRecord_array (h : skipBlanks bytes = byte '[' :: more)
    (hpair : outcome (readPair shape) more = .ok ((x, y), rest)) :
    outcome (readRecord shape) bytes = .ok ((x, y), rest) := by
  obtain ⟨_, hpair⟩ := outcome_eq_ok_iff.mp hpair
  rw [outcome, readRecord]
  split
  · next heq => cases h.symm.trans heq
  · next heq =>
      cases h.symm.trans heq
      rw [if_pos rfl, hpair]
      rfl

theorem array_of_readPair {p : α × β} (hS : Reads shape.readFirst S)
    (hT : Reads shape.readSecond T) (hgap : Blanks gap) (hbytes : bytes = gap ++ byte '[' :: more)
    (h : outcome (readPair shape) more = .ok (p, rest)) :
    ∃ gap core, Blanks gap ∧ RecordSpelled shape.first shape.second S T p.1 p.2 core ∧
      bytes = gap ++ (core ++ rest) := by
  obtain ⟨b, tail, behind, left, hvisible, -, hfirst, hsecond, hend⟩ := outcome_readPair_iff.mp h
  obtain ⟨behindComma, c, tail', hcomma, hvisible', -, hread⟩ :=
    outcome_readSecondElement_iff.mp hsecond
  obtain ⟨before, hbefore, hmore⟩ := blanks_of_skipBlanks hvisible
  obtain ⟨before', core, hbefore', hx, hcore⟩ := hS.sound hfirst
  obtain ⟨behind', hbehind, hleft⟩ := blanks_of_skipBlanks hcomma
  obtain ⟨after, hafter, hbehindComma⟩ := blanks_of_skipBlanks hvisible'
  obtain ⟨after', core', hafter', hy, hcore'⟩ := hT.sound hread
  obtain ⟨last, hlast, hrest⟩ := blanks_of_skipBlanks (outcome_readArrayEnd_iff.mp hend)
  refine ⟨gap, _, hgap, .array (hbefore.append hbefore') hx hbehind (hafter.append hafter') hy
    hlast, ?_⟩
  rw [hbytes, hmore, hcore, hleft, hbehindComma, hcore', hrest]
  simp

theorem reads_record (shape : Shape α β) (hS : Reads shape.readFirst S)
    (hT : Reads shape.readSecond T) (hne : shape.second ≠ shape.first) :
    Reads (readRecord shape) fun p => RecordSpelled shape.first shape.second S T p.1 p.2 where
  visible h := by
    cases h with
    | array _ _ _ _ _ _ => exact ⟨byte '[', _, rfl, by decide, by decide⟩
    | object _ _ _ => exact ⟨byte '{', _, rfl, by decide, by decide⟩
  takes {p gap core} rest hgap h := by
    cases h with
    | @array before core behind before' core' behind' hbefore hx hbehind hbefore' hy hbehind' =>
        obtain ⟨c, tail', hvisible', hc, hread'⟩ :=
          hT.found hbefore' hy (behind' ++ byte ']' :: rest)
        obtain ⟨b, tail, hvisible, hb, hread⟩ := hS.found hbefore hx
          (behind ++ byte ',' :: (before' ++ (core' ++ (behind' ++ byte ']' :: rest))))
        have hsecond := outcome_readSecondElement_iff.mpr
          ⟨_, c, tail', skipBlanks_gap hbehind (by decide) _, hvisible', hc, hread'⟩
        have hend := outcome_readArrayEnd_iff.mpr (skipBlanks_gap hbehind' (by decide) rest)
        simp only [List.cons_append, List.append_assoc, List.nil_append]
        exact outcome_readRecord_array (skipBlanks_gap hgap (by decide) _)
          (outcome_readPair_iff.mpr ⟨b, tail, _, _, hvisible, hb, hread, hsecond, hend⟩)
    | object hinside hfirsts hseconds =>
        rw [enclosed_append]
        exact outcome_readRecord (skipBlanks_gap hgap (by decide) _)
          (readMembers_items hS hT hne hinside hfirsts hseconds _)
  sound {p bytes rest} h := by
    obtain ⟨_, h⟩ := outcome_eq_ok_iff.mp h
    rw [readRecord] at h
    split at h
    · cases h
    next b more hvisible =>
    obtain ⟨gap, hgap, hbytes⟩ := blanks_of_skipBlanks hvisible
    split at h
    · next hb =>
        cases hpair : readPair shape more with
        | error fault =>
            rw [hpair] at h
            cases h
        | ok r =>
            rw [hpair] at h
            cases h
            exact array_of_readPair hS hT hgap (hb ▸ hbytes) (outcome_of_eq_ok hpair)
    split at h
    · next hb =>
        obtain ⟨members, inside, hinside, hmore, hfirsts, hseconds⟩ :=
          members_of_readMembers hS hT h
        exact ⟨gap, _, hgap, .object hinside hfirsts hseconds,
          by rw [enclosed_append, hbytes, hb, hmore]⟩
    · cases h

/-! ## Grammars -/

theorem reads_symbol : Reads readSymbol SymbolSpelled := by
  refine (reads_record symbolShape reads_string reads_flag (by decide)).map
    (fun s : Symbol => (s.text, s.isTerminal)) Symbol.ofText_text_isTerminal ?_
  rintro ⟨text, _ | _⟩ <;> rfl

theorem reads_production : Reads readProduction ProductionSpelled :=
  (reads_record productionShape reads_string (reads_list reads_symbol) (by decide)).map
    (fun p : Production => (p.lhs, p.rhs)) (fun _ => rfl) fun _ => rfl

theorem reads_grammar : Reads readGrammar GrammarSpelled :=
  (reads_record grammarShape reads_string (reads_list reads_production) (by decide)).map
    (fun g : Grammar => (g.start, g.productions)) ofProductions_start_productions fun _ => rfl

/-- The documents that are read are those that spell a grammar, each as that grammar. -/
theorem readDocument_eq_ok_iff {g : Grammar} :
    readDocument bytes = .ok g ↔ DocumentSpelled g bytes := by
  rw [readDocument]
  constructor
  · intro h
    split at h
    · cases h
    next r hread =>
    split at h
    · next hend =>
        cases h
        obtain ⟨before, core, hbefore, hcore, hbytes⟩ :=
          reads_grammar.sound (outcome_of_eq_ok hread)
        obtain ⟨behind, hbehind, hrest⟩ := blanks_of_skipBlanks hend
        rw [hrest, List.append_nil] at hbytes
        exact ⟨before, core, behind, hbefore, hcore, hbehind, hbytes⟩
    · cases h
  · rintro ⟨before, core, behind, hbefore, hcore, hbehind, rfl⟩
    obtain ⟨_, hread⟩ := outcome_eq_ok_iff.mp (reads_grammar.takes behind hbefore hcore)
    have hend : skipBlanks behind = [] := by
      have hskip := skipBlanks_append hbehind []
      rwa [List.append_nil] at hskip
    simp only [hread, hend]

/-- A text is read as a grammar exactly if it spells that grammar. -/
theorem parse_eq_ok_iff (text file : String) (g : Grammar) :
    parse text file = .ok g ↔ DocumentSpelled g (encode text.toList) := by
  rw [← readDocument_eq_ok_iff, parse, readDocumentText, readBytes]
  cases readDocument (encode text.toList) with
  | error fault => exact ⟨fun h => (by cases h), fun h => (by cases h)⟩
  | ok g' => exact ⟨fun h => by cases h; rfl, fun h => by cases h; rfl⟩

end SentenceGuide.Json
