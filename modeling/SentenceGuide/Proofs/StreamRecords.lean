import SentenceGuide.Json.Stream.Record
import SentenceGuide.Proofs.StreamValues

/-!
# Typed values of a stream

A reader of streams follows a reader of bytes if the two agree on every stream
(`Follows`).  Texts and flags are read by such readers, lists and records are if their
parts are, and a value of another type meets the same fault (`wrongType_agrees`).

The readers take the same steps, so each proof goes along the reader.  Lists and members
are read on behind what has been read of them.  That goes by what is left of the stream.
-/

namespace SentenceGuide.Json

variable {α β : Type} {document : List UInt8} {b : UInt8} {s rest : Stream} {bound : Nat}
  {P : Stream → Prop}

/-- A reader of streams reads what a reader of bytes does. -/
def Follows (read : Stream.Reader α) (read' : Reader α) : Prop :=
  ∀ {document : List UInt8} {s : Stream}, s.Of document →
    Agrees document (fun _ => True) (Stream.untied (read s)) (untied (read' s.bytes))

/-- The byte that was taken last can be left to a reader. -/
theorem Follows.holding {read : Stream.Reader α} {read' : Reader α} (h : Follows read read')
    (hrest : rest.Behind b document) :
    Agrees document (fun _ => True) (Stream.untied (read (rest.holding b)))
      (untied (read' (b :: rest.bytes))) := by
  rw [← Stream.bytes_holding hrest.held_eq b]
  exact h hrest.holding

/-! ## Values of another type -/

theorem wrongWord_agrees (word : List Char) (found : Found) (expected : Expected)
    (h : rest.Behind b document) :
    Agrees (α := α) document P
      (.error (match rest.readWord word with
        | .error e => e
        | .ok r => r.rest.fault (.data (.wrongType found expected))))
      (.error (match readWord word rest.bytes with
        | .error e => e
        | .ok more => ⟨.data (.wrongType found expected), more, .read⟩)) := by
  obtain ⟨_, _, hx, hy, herror⟩ | ⟨more, _, hx, hy, hof, hheld⟩ :=
    readWord_cases word h.of h.held_eq
  · rw [hx, hy]
    exact herror
  · rw [hx, hy]
    exact agrees_taken hof hheld _

theorem wrongNumber_agrees (isNegative : Bool) (expected : Expected) (h : s.Of document) :
    Agrees (α := α) document P
      (.error (match s.readNumber isNegative with
        | .error e => e
        | .ok (found, s) => s.fault (.data (.wrongType found expected))))
      (.error (match readNumber isNegative s.bytes with
        | .error e => e
        | .ok (found, more) => ⟨.data (.wrongType found expected), more, .seen⟩)) := by
  have hagrees : Agrees document Stream.Seen (s.readNumber isNegative)
      (readNumber isNegative s.bytes) := readNumber_agrees h
  generalize s.readNumber isNegative = x at hagrees ⊢
  generalize readNumber isNegative s.bytes = y at hagrees ⊢
  cases hagrees with
  | ok hof hseen => exact agrees_before hof hseen _ rfl
  | error hreason hplace => exact .error hreason hplace

/-- A value of another type meets the same fault, once as much of it as names it is read. -/
theorem wrongType_agrees (expected : Expected) (h : rest.Behind b document) :
    Agrees (α := α) document P (.error (Stream.wrongType expected b rest))
      (.error (wrongType expected b rest.bytes)) := by
  refine agrees_ite (fun _ => wrongWord_agrees _ _ _ h) fun _ => ?_
  refine agrees_ite (fun _ => wrongWord_agrees _ _ _ h) fun _ => ?_
  refine agrees_ite (fun _ => wrongWord_agrees _ _ _ h) fun _ => ?_
  refine agrees_ite (fun _ => wrongNumber_agrees _ _ h.of) fun _ =>
    agrees_ite (fun _ => ?_) fun _ => ?_
  · rw [← Stream.bytes_holding h.held_eq b]
    exact wrongNumber_agrees _ _ h.holding
  refine agrees_ite (fun _ => ?_) fun _ => ?_
  · obtain ⟨_, _, hx, hy, herror⟩ | ⟨_, more, _, _, hx, hy, hof, hheld⟩ :=
      (readText_agrees h.of).cases
    · rw [hx, hy]
      exact herror.of_error
    · rw [hx, hy]
      exact agrees_taken hof hheld _
  refine agrees_ite (fun _ => agrees_seen h _ rfl) fun _ => ?_
  exact agrees_ite (fun _ => agrees_seen h _ rfl) fun _ => agrees_seen h _ rfl

/-! ## Texts and flags -/

theorem readString_follows : Follows Stream.readString readString := by
  intro document s h
  refine agrees_visible h rfl (fun _ => agrees_ended .endInValue .blamed) fun b rest _ _ hrest => ?_
  refine agrees_ite (fun _ => ?_) fun _ => wrongType_agrees .text hrest
  rw [Stream.untied_widen, untied_widen]
  exact (readText_agrees hrest.of).mono fun _ _ => trivial

theorem readFlagWord_agrees {n m : Nat} (word : List Char) (value : Bool)
    (h : rest.Behind b document) (hlt : rest.left < n) (hlt' : rest.bytes.length < m) :
    Agrees document (fun _ => True)
      (Stream.untied ((rest.readWord word).map fun r => (r.map fun _ => value).widen hlt))
      (untied (match hw : readWord word rest.bytes with
        | .error fault => .error fault
        | .ok more => .ok (⟨value, more, Nat.lt_of_le_of_lt (length_of_readWord hw) hlt'⟩ :
            Reading Bool m))) := by
  obtain ⟨_, _, hx, hy, herror⟩ | ⟨more, _, hx, hy, hof, _⟩ :=
    readWord_cases word h.of h.held_eq
  · rw [hx]
    split
    · next heq =>
        cases hy.symm.trans heq
        exact herror
    · next heq => cases hy.symm.trans heq
  · rw [hx]
    split
    · next heq => cases hy.symm.trans heq
    · next heq =>
        cases hy.symm.trans heq
        exact .ok hof trivial

theorem readFlag_follows : Follows Stream.readFlag readFlag := by
  intro document s h
  refine agrees_visible h rfl (fun _ => agrees_ended .endInValue .blamed)
    fun b rest shorter hskip hrest => ?_
  have hlt := length_of_skipBlanks hskip
  refine agrees_ite (fun _ => readFlagWord_agrees _ _ hrest shorter hlt) fun _ => ?_
  exact agrees_ite (fun _ => readFlagWord_agrees _ _ hrest shorter hlt)
    fun _ => wrongType_agrees .flag hrest

/-! ## Lists -/

/-- The elements of a list, behind those that have been read. -/
theorem readElements_agrees {element : Stream.Reader α} {element' : Reader α}
    (helement : Follows element element') {isFirst : Bool} {done : List α} {s : Stream}
    {bytes : List UInt8} {within : bytes.length ≤ bound} (h : s.Of document)
    (hbytes : s.bytes = bytes) :
    Agrees document (fun _ => True) (Stream.untied (Stream.readElements element isFirst done s))
      (untied (readElements element' bound isFirst done bytes within)) := by
  rw [Stream.readElements, readElements]
  refine agrees_visible h (congrArg skipBlanks hbytes) (fun _ => agrees_ended .endInList .blamed)
    fun b rest shorter _ hrest => ?_
  refine agrees_ite (fun _ => .ok hrest.of trivial) fun _ => ?_
  refine agrees_ite (fun _ => ?_) fun _ =>
    agrees_ite (fun _ => ?_) fun _ => agrees_seen hrest .expectedListCommaOrEnd rfl
  · obtain ⟨_, _, hx, hy, herror⟩ | ⟨_, behind, hlt, _, hx, hy, hof, -⟩ :=
      (helement.holding hrest).cases
    · rw [hx, hy]
      exact herror.of_error
    · have : behind.left < s.left := Nat.lt_of_lt_of_le hlt (Stream.left_holding_le_of_lt shorter)
      rw [hx, hy]
      dsimp only
      rw [Stream.untied_widen]
      exact readElements_agrees helement hof rfl
  · refine agrees_visible hrest.of rfl (fun _ => agrees_ended .endInValue .blamed)
      fun c more shorter' _ hmore => ?_
    refine agrees_ite (fun _ => agrees_seen hmore .trailingComma rfl) fun _ => ?_
    obtain ⟨_, _, hx, hy, herror⟩ | ⟨_, behind, hlt, _, hx, hy, hof, -⟩ :=
      (helement.holding hmore).cases
    · rw [hx, hy]
      exact herror.of_error
    · have : behind.left < rest.left :=
        Nat.lt_of_lt_of_le hlt (Stream.left_holding_le_of_lt shorter')
      rw [hx, hy]
      dsimp only
      rw [Stream.untied_widen]
      exact readElements_agrees helement hof rfl
termination_by s.left

theorem readList_follows {element : Stream.Reader α} {element' : Reader α}
    (helement : Follows element element') :
    Follows (Stream.readList element) (readList element') := by
  intro document s h
  refine agrees_visible h rfl (fun _ => agrees_ended .endInValue .blamed) fun b rest _ _ hrest => ?_
  refine agrees_ite (fun _ => ?_) fun _ => wrongType_agrees .sequence hrest
  rw [Stream.untied_widen]
  exact readElements_agrees helement hrest.of rfl

/-! ## Records that are written as arrays -/

theorem readArrayEnd_follows : Follows Stream.readArrayEnd readArrayEnd := by
  intro document s h
  refine agrees_visible h rfl (fun _ => agrees_ended .endInList .blamed) fun b rest _ _ hrest => ?_
  refine agrees_ite (fun _ => .ok hrest.of trivial) fun _ => ?_
  refine agrees_ite (fun _ => ?_) fun _ => agrees_seen hrest .trailingCharacters rfl
  obtain ⟨hnext, hbytes⟩ | ⟨c, more, _, hnext, hbytes, hmore⟩ := hrest.of.nextVisible
  · rw [hnext, hbytes]
    exact agrees_ended .trailingCharacters .blamed
  · rw [hnext, hbytes]
    exact agrees_ite (fun _ => agrees_seen hmore .trailingComma rfl)
      fun _ => agrees_seen hmore .trailingCharacters rfl

section Records

variable {shape : Shape α β} {readFirst : Stream.Reader α} {readSecond : Stream.Reader β}
  (hfirst : Follows readFirst shape.readFirst) (hsecond : Follows readSecond shape.readSecond)

include hsecond in
theorem readSecondElement_follows :
    Follows (Stream.readSecondElement shape readSecond) (readSecondElement shape) := by
  intro document s h
  refine agrees_visible h rfl (fun _ => agrees_ended .endInList .blamed) fun b rest _ _ hrest => ?_
  refine agrees_ite (fun _ => agrees_taken hrest.of hrest.held_eq _) fun _ => ?_
  refine agrees_ite (fun _ => ?_) fun _ => agrees_seen hrest .expectedListCommaOrEnd rfl
  refine agrees_visible hrest.of rfl (fun _ => agrees_ended .endInValue .blamed)
    fun c more _ _ hmore => ?_
  refine agrees_ite (fun _ => agrees_seen hmore .trailingComma rfl) fun _ => ?_
  rw [Stream.untied_widen, untied_widen]
  exact hsecond.holding hmore

include hfirst hsecond in
theorem readPair_follows :
    Follows (Stream.readPair shape readFirst readSecond) (readPair shape) := by
  intro document s h
  refine agrees_visible h rfl (fun _ => agrees_ended .endInList .blamed) fun b rest _ _ hrest => ?_
  refine agrees_ite (fun _ => agrees_taken hrest.of hrest.held_eq _) fun _ => ?_
  obtain ⟨_, _, hx, hy, herror⟩ | ⟨first, _, _, _, hx, hy, hof, -⟩ := (hfirst.holding hrest).cases
  · rw [hx, hy]
    exact herror.of_error
  rw [hx, hy]
  dsimp only
  obtain ⟨_, _, hx', hy', herror⟩ | ⟨second, _, _, _, hx', hy', hof', -⟩ :=
    (readSecondElement_follows hsecond hof).cases
  · rw [hx', hy']
    exact herror.of_error
  rw [hx', hy']
  dsimp only
  obtain ⟨_, _, hx'', hy'', herror⟩ | ⟨_, last, _, _, hx'', hy'', hlast, -⟩ :=
    (readArrayEnd_follows hof').cases
  · rw [hx'', hy'']
    exact herror.of_error
  · rw [hx'', hy'']
    exact .ok hlast trivial

/-! ## Records that are written as objects -/

theorem findKey_agrees (isFirst : Bool) (h : rest.Behind b document) :
    Agrees document (fun _ => True) (Stream.untied (Stream.findKey isFirst b rest))
      (untied (findKey isFirst b rest.bytes)) := by
  refine agrees_ite (fun _ => ?_) fun _ =>
    agrees_ite (fun _ => ?_) fun _ => agrees_seen h .expectedObjectCommaOrEnd rfl
  · exact agrees_ite (fun _ => .ok h.of trivial) fun _ => agrees_seen h .keyMustBeString rfl
  · refine agrees_visible h.of rfl (fun _ => agrees_ended .endInValue .blamed)
      fun c more _ _ hmore => ?_
    refine agrees_ite (fun _ => .ok hmore.of trivial) fun _ => ?_
    exact agrees_ite (fun _ => agrees_seen hmore .trailingComma rfl)
      fun _ => agrees_seen hmore .keyMustBeString rfl

theorem readColon_follows : Follows Stream.readColon readColon := by
  intro document s h
  refine agrees_visible h rfl (fun _ => agrees_ended .endInObject .blamed)
    fun b rest _ _ hrest => ?_
  exact agrees_ite (fun _ => .ok hrest.of trivial) fun _ => agrees_seen hrest .expectedColon rfl

theorem readMember_follows {value : Stream.Reader α} {value' : Reader α}
    (hvalue : Follows value value') : Follows (Stream.readMember value) (readMember value') := by
  intro document s h
  rw [Stream.readMember, readMember]
  obtain ⟨_, _, hx, hy, herror⟩ | ⟨_, colon, _, _, hx, hy, hof, -⟩ := (readColon_follows h).cases
  · rw [hx, hy]
    exact herror.of_error
  · rw [hx, hy]
    dsimp only
    rw [Stream.untied_widen, untied_widen]
    exact hvalue hof

theorem duplicateField_agrees (name : String) (h : s.Of document) :
    Agrees (α := α) document P (.error (Stream.duplicateField name s))
      (.error (duplicateField name s.bytes)) := by
  rw [Stream.duplicateField, duplicateField]
  obtain ⟨hnext, hbytes⟩ | ⟨b, rest, _, hnext, hbytes, hrest⟩ := h.nextVisible
  · rw [hnext, hbytes]
    exact agrees_ended _ .read
  rw [hnext, hbytes]
  dsimp only
  by_cases hb : b = byte '}'
  · rw [if_pos hb]
    exact agrees_taken hrest.of hrest.held_eq _
  · rw [if_neg hb]
    exact agrees_seen hrest _ rfl

include hfirst hsecond in
/-- The members of an object, behind those that have been read. -/
theorem readMembers_agrees {isFirst : Bool} {first : Option α} {second : Option β} {s : Stream}
    {bytes : List UInt8} {within : bytes.length ≤ bound} (h : s.Of document)
    (hbytes : s.bytes = bytes) :
    Agrees document (fun _ => True)
      (Stream.untied (Stream.readMembers shape readFirst readSecond isFirst first second s))
      (untied (readMembers shape bound isFirst first second bytes within)) := by
  rw [Stream.readMembers, readMembers]
  refine agrees_visible h (congrArg skipBlanks hbytes) (fun _ => agrees_ended .endInObject .blamed)
    fun b rest shorter _ hrest => ?_
  refine agrees_ite (fun _ => ?_) fun _ => ?_
  -- The closing brace: the first field that is missing is the fault.
  · cases first with
    | none => exact agrees_taken hrest.of hrest.held_eq _
    | some x =>
        cases second with
        | none => exact agrees_taken hrest.of hrest.held_eq _
        | some y => exact .ok hrest.of trivial
  obtain ⟨_, _, hx, hy, herror⟩ | ⟨_, start, hstart, _, hx, hy, hof, -⟩ :=
    (findKey_agrees isFirst hrest).cases
  · rw [hx, hy]
    exact herror.of_error
  rw [hx, hy]
  dsimp only
  obtain ⟨_, _, hx', hy', herror⟩ | ⟨key, behind, hkey, _, hx', hy', hof', -⟩ :=
    (readText_agrees hof).cases
  · rw [hx', hy']
    exact herror.of_error
  rw [hx', hy']
  dsimp only
  -- What is left behind the key is what the rest is read from, whichever field it names.
  have hlt : behind.left < s.left := by omega
  refine agrees_ite (fun _ => ?_) fun _ => agrees_ite (fun _ => ?_) fun _ => ?_
  · refine agrees_ite (fun _ => duplicateField_agrees _ hof') fun _ => ?_
    obtain ⟨_, _, hx'', hy'', herror⟩ | ⟨_, last, hlast, _, hx'', hy'', hof'', -⟩ :=
      (readMember_follows hfirst hof').cases
    · rw [hx'', hy'']
      exact herror.of_error
    · rw [hx'', hy'']
      dsimp only
      rw [Stream.untied_widen]
      exact readMembers_agrees hof'' rfl
  · refine agrees_ite (fun _ => duplicateField_agrees _ hof') fun _ => ?_
    obtain ⟨_, _, hx'', hy'', herror⟩ | ⟨_, last, hlast, _, hx'', hy'', hof'', -⟩ :=
      (readMember_follows hsecond hof').cases
    · rw [hx'', hy'']
      exact herror.of_error
    · rw [hx'', hy'']
      dsimp only
      rw [Stream.untied_widen]
      exact readMembers_agrees hof'' rfl
  · obtain ⟨_, _, hx'', hy'', herror⟩ | ⟨_, last, hlast, _, hx'', hy'', hof'', -⟩ :=
      (readMember_follows skipValue_agrees hof').cases
    · rw [hx'', hy'']
      exact herror.of_error
    · rw [hx'', hy'']
      dsimp only
      rw [Stream.untied_widen]
      exact readMembers_agrees hof'' rfl
termination_by s.left

include hfirst hsecond in
theorem readRecord_follows :
    Follows (Stream.readRecord shape readFirst readSecond) (readRecord shape) := by
  intro document s h
  refine agrees_visible h rfl (fun _ => agrees_ended .endInValue .blamed) fun b rest _ _ hrest => ?_
  refine agrees_ite (fun _ => ?_) fun _ => agrees_ite (fun _ => ?_) fun _ =>
    wrongType_agrees (.record shape.name) hrest
  · rw [Stream.untied_widen, untied_widen]
    exact readPair_follows hfirst hsecond hrest.of
  · rw [Stream.untied_widen]
    exact readMembers_agrees hfirst hsecond hrest.of rfl

end Records

end SentenceGuide.Json
