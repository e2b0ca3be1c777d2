import Mathlib.Data.List.Induction
import SentenceGuide.Bnf.Document
import SentenceGuide.Proofs.Lines
import SentenceGuide.Proofs.TextSpellings

/-!
# Files of rules

A file of rules is cut into lines before its bytes are read as characters, and a rule
text at hand is cut behind that.  Both give the same lines, since the bytes of a newline
and of a return are in no other character (`byteLines_encode`).  So a file that spells a
text is read like the text.

A line of a file that spells no text is a fault of its own.  It passes by the logical
line that is open, if any, and neither ends it nor adds to it.  So the other lines are
joined as if it were not there (`filter_wasRead_joinLines`), and give the faults that they
give without it.
-/

namespace SentenceGuide.Text

open Utf8 (encode encodeChar decode decode_eq_some_iff)

variable {c : Char} {line start : List Char} {bytes : List UInt8}

/-! ## Lines of bytes -/

theorem newline_not_mem_encodeChar (h : c ≠ '\n') : 10 ∉ encodeChar c :=
  fun hmem => Json.ne_byte_of_mem_encodeChar (a := '\n') (by decide) h hmem (by decide)

theorem return_not_mem_encodeChar (h : c ≠ '\r') : 13 ∉ encodeChar c :=
  fun hmem => Json.ne_byte_of_mem_encodeChar (a := '\r') (by decide) h hmem (by decide)

theorem encode_concat (line : List Char) (c : Char) :
    encode (line ++ [c]) = encode line ++ encodeChar c := by
  rw [Json.encode_append, encode, encode, List.flatMap_cons, List.flatMap_nil, List.append_nil]

theorem encodeChar_ne_nil (c : Char) : encodeChar c ≠ [] := by
  obtain ⟨first, tail, hc, -⟩ := Utf8.decodeChar_encodeChar c []
  rw [hc]
  exact List.cons_ne_nil first tail

/-- A byte that ends a text is in its last character. -/
theorem mem_of_getLast?_encode {b : UInt8} (h : (encode (line ++ [c])).getLast? = some b) :
    b ∈ encodeChar c := by
  have hlast : (encodeChar c).getLast?.isSome := List.getLast?_isSome.mpr (encodeChar_ne_nil c)
  rw [encode_concat, List.getLast?_append, Option.or_of_isSome hlast] at h
  exact List.mem_of_getLast? h

/-- The bytes of a line lose a return at their end just if the line does. -/
theorem dropReturn_encode (line : List Char) :
    dropReturn 13 (encode line.reverse).reverse =
      (encode (dropReturn '\r' line).reverse).reverse := by
  cases line with
  | nil => rfl
  | cons c line =>
      by_cases hc : c = '\r'
      · subst hc
        rw [List.reverse_cons, encode_concat, List.reverse_append]
        rfl
      · have hline : dropReturn '\r' (c :: line) = c :: line :=
          dropReturn_of_head? (by simpa using hc)
        rw [hline]
        refine dropReturn_of_head? fun h => return_not_mem_encodeChar hc ?_
        rw [List.head?_reverse, List.reverse_cons] at h
        exact mem_of_getLast?_encode h

theorem linesFrom_encode (cs : List Char) :
    ∀ start, linesFrom 10 13 (encode start.reverse).reverse (encode cs) =
      (linesFrom '\n' '\r' start cs).map encode := by
  induction cs with
  | nil =>
      intro start
      cases start with
      | nil => rfl
      | cons c start =>
          have hnil : encode [] = [] := rfl
          rw [hnil, linesFrom_nil, linesFrom_nil, List.reverse_reverse]
          simp [encode, encodeChar_ne_nil]
  | cons c cs ih =>
      intro start
      by_cases hc : c = '\n'
      · subst hc
        have hnewline : encode ('\n' :: cs) = 10 :: encode cs := rfl
        rw [hnewline, linesFrom_newline, linesFrom_newline, dropReturn_encode,
          List.reverse_reverse, List.map_cons, ← ih []]
        rfl
      · have hmore : encode (c :: cs) = encodeChar c ++ encode cs := rfl
        rw [hmore, linesFrom_append (newline_not_mem_encodeChar hc), linesFrom_cons _ _ hc,
          ← ih (c :: start), List.reverse_cons, encode_concat, List.reverse_append]

/-- The lines of the bytes that spell a text are the bytes that spell its lines. -/
theorem byteLines_encode (cs : List Char) : byteLines (encode cs) = (lines cs).map encode :=
  linesFrom_encode cs []

/-! ## Lines that spell no text -/

/-- Some bytes spell no text. -/
def Utf8.isStray (bytes : List UInt8) : Bool := (decode bytes).isNone

theorem isStray_eq_false_iff : Utf8.isStray bytes = false ↔ ∃ cs, bytes = encode cs := by
  rw [Utf8.isStray, Option.isNone_eq_false_iff, Option.isSome_iff_exists]
  exact exists_congr fun cs => decode_eq_some_iff

/-- A return at the end of a line plays no part in whether it spells a text. -/
theorem isStray_return (bytes : List UInt8) :
    Utf8.isStray (bytes ++ [13]) = Utf8.isStray bytes := by
  rw [Bool.eq_iff_iff, ← Decidable.not_iff_not, Bool.not_eq_true, Bool.not_eq_true,
    isStray_eq_false_iff, isStray_eq_false_iff]
  constructor
  · rintro ⟨cs, hcs⟩
    induction cs using List.reverseRecOn with
    | nil => exact absurd hcs (by simp [encode])
    | append_singleton cs c _ =>
        have hlast : (encode (cs ++ [c])).getLast? = some 13 := by
          rw [← hcs, List.getLast?_concat]
        have hc : c = '\r' := Decidable.not_not.mp fun hc =>
          return_not_mem_encodeChar hc (mem_of_getLast?_encode hlast)
        rw [hc, encode_concat] at hcs
        exact ⟨cs, List.append_cancel_right hcs⟩
  · rintro ⟨cs, rfl⟩
    exact ⟨cs ++ ['\r'], (encode_concat cs '\r').symm⟩

theorem isStray_dropReturn (line : List UInt8) :
    Utf8.isStray (dropReturn 13 line).reverse = Utf8.isStray line.reverse := by
  cases line with
  | nil => rfl
  | cons b line =>
      rw [dropReturn]
      split
      · next hb => rw [hb, List.reverse_cons, isStray_return]
      · rfl

theorem countP_isStray_linesFrom (bytes : List UInt8) :
    ∀ start : List UInt8, 10 ∉ start →
      (linesFrom 10 13 start bytes).countP Utf8.isStray =
        ((start.reverse ++ bytes).splitOn 10).countP Utf8.isStray := by
  induction bytes with
  | nil =>
      intro start hstart
      rw [List.append_nil, List.splitOn_eq_singleton (by simpa using hstart), linesFrom_nil]
      cases start with
      | nil => decide +kernel
      | cons b start => rfl
  | cons b bytes ih =>
      intro start hstart
      by_cases hb : b = 10
      · subst hb
        rw [List.splitOn_append_cons_self_of_not_mem (by simpa using hstart), linesFrom_newline,
          List.countP_cons, List.countP_cons, isStray_dropReturn, ih [] List.not_mem_nil]
        rfl
      · have hmore : 10 ∉ b :: start := by simpa [eq_comm (a := (10 : UInt8)), hb] using hstart
        rw [linesFrom_cons _ _ hb, ih _ hmore, List.reverse_cons, List.append_assoc,
          List.singleton_append]

/-- As many lines of a file spell no text as stretches between its newlines do. -/
theorem countP_isStray_byteLines (bytes : List UInt8) :
    (byteLines bytes).countP Utf8.isStray = (bytes.splitOn 10).countP Utf8.isStray :=
  countP_isStray_linesFrom bytes [] List.not_mem_nil

end SentenceGuide.Text

namespace SentenceGuide.Bnf

open Text (byteLines)
open Text.Utf8 (decode decode_eq_some_iff isStray)

variable {file : String} {lines : List NumberedLine}

/-! ## Files that spell a text -/

theorem decodeLine_encode (line : List Char) : decodeLine (Text.Utf8.encode line) = .ok line := by
  rw [decodeLine, decode_eq_some_iff.mpr rfl]

/-- The bytes that spell a rule text are read like the text. -/
theorem parseBytes_encode (cs : List Char) (file : String) :
    parseBytes (Text.Utf8.encode cs) file = parse (String.ofList cs) file := by
  rw [parseBytes, parse, Text.byteLines_encode, List.map_map, String.toList_ofList]
  congr 1
  exact List.map_congr_left fun line _ => decodeLine_encode line

/-! ## Lines that cannot be read -/

/-- Whether a line could be read. -/
def wasRead : NumberedLine → Bool
  | (_, .ok _) => true
  | (_, .error _) => false

@[simp] theorem wasRead_ok (number : Nat) (text : List Char) :
    wasRead (number, .ok text) = true := rfl

@[simp] theorem wasRead_error (number : Nat) (fault : ReadFault) :
    wasRead (number, .error fault) = false := rfl

/-- Lines that could not be read pass by the open logical line, which joins the others
as if they were not there. -/
theorem filter_wasRead_joinLines (lines : List NumberedLine) :
    ∀ opened,
      (joinLines opened lines).filter wasRead = joinLines opened (lines.filter wasRead) := by
  induction lines with
  | nil =>
      intro opened
      cases opened <;> rfl
  | cons line lines ih =>
      intro opened
      obtain ⟨number, content⟩ := line
      cases content with
      | error fault => exact ih opened
      | ok text =>
          rw [joinLines, List.filter_cons_of_pos rfl, joinLines]
          cases hcut : cutBackslash (opened.extend number text).2 with
          | some kept => simp only [hcut, ih]
          | none =>
              simp only [hcut]
              rw [List.filter_cons_of_pos rfl, ih]

/-- Joining leaves the lines that could not be read as they are. -/
theorem filter_not_wasRead_joinLines (lines : List NumberedLine) :
    ∀ opened, (joinLines opened lines).filter (!wasRead ·) = lines.filter (!wasRead ·) := by
  induction lines with
  | nil =>
      intro opened
      cases opened <;> rfl
  | cons line lines ih =>
      intro opened
      obtain ⟨number, content⟩ := line
      cases content with
      | error fault =>
          rw [joinLines, List.filter_cons_of_pos rfl, List.filter_cons_of_pos rfl, ih]
      | ok text =>
          rw [joinLines, List.filter_cons_of_neg (by simp)]
          cases hcut : cutBackslash (opened.extend number text).2 with
          | some kept => simp only [hcut, ih]
          | none =>
              simp only [hcut]
              rw [List.filter_cons_of_neg (by simp), ih]

/-! ## The faults of a file -/

/-- Reads lines that have their numbers already. -/
def readNumbered (file : String) (lines : List NumberedLine) : Loaded :=
  collect (((joinLines none lines).filter isRuleLine).map (readLine file))

/-- The faults that reading gives. -/
def faultsOf : Loaded → List LocatedFault
  | .ok _ => []
  | .error faults => faults

/-- Whether a fault is a file or a line that cannot be read. -/
def isReadFault (fault : LocatedFault) : Bool :=
  match fault.fault with
  | .unreadable _ => true
  | _ => false

/-- The faults of some logical lines. -/
def lineFaults (file : String) (lines : List NumberedLine) : List LocatedFault :=
  ((lines.filter isRuleLine).map (readLine file)).filterMap faultOf

theorem faultsOf_collect (outcomes : List (Except LocatedFault Rule)) :
    faultsOf (collect outcomes) = outcomes.filterMap faultOf := by
  by_cases h : outcomes.filterMap faultOf = []
  · rw [collect_of_no_fault h, h]
    rfl
  · rw [collect_of_faults h]
    rfl

theorem faultsOf_readNumbered (file : String) (lines : List NumberedLine) :
    faultsOf (readNumbered file lines) = lineFaults file (joinLines none lines) :=
  faultsOf_collect _

theorem readNumbered_of_lineFaults (h : lineFaults file (joinLines none lines) ≠ []) :
    readNumbered file lines = .error (lineFaults file (joinLines none lines)) :=
  collect_of_faults h

theorem lineFaults_cons (file : String) (line : NumberedLine) (lines : List NumberedLine) :
    lineFaults file (line :: lines) = lineFaults file [line] ++ lineFaults file lines := by
  rw [lineFaults, lineFaults, lineFaults, ← List.filterMap_append, ← List.map_append,
    ← List.filter_append, List.singleton_append]

theorem lineFaults_error (file : String) (number : Nat) (fault : ReadFault) :
    lineFaults file [(number, .error fault)] = [⟨.ofFile file, .unreadable fault⟩] := rfl

/-- A line that could be read has no fault of reading. -/
theorem isReadFault_of_mem_lineFaults_ok {number : Nat} {text : List Char} {fault : LocatedFault}
    (h : fault ∈ lineFaults file [(number, .ok text)]) : isReadFault fault = false := by
  obtain ⟨outcome, houtcome, hfault⟩ := List.mem_filterMap.mp h
  obtain ⟨line, hline, rfl⟩ := List.mem_map.mp houtcome
  rw [List.mem_singleton.mp (List.mem_filter.mp hline).1, readLine] at hfault
  split at hfault
  · cases hfault
  · cases hfault
    rfl

/-- Faults of reading come from the lines that could not be read, and the other faults
from the other lines. -/
theorem filter_lineFaults (file : String) (lines : List NumberedLine) :
    (lineFaults file lines).filter isReadFault = lineFaults file (lines.filter (!wasRead ·)) ∧
    (lineFaults file lines).filter (!isReadFault ·) = lineFaults file (lines.filter wasRead) := by
  induction lines with
  | nil => exact ⟨rfl, rfl⟩
  | cons line lines ih =>
      obtain ⟨ihread, ihother⟩ := ih
      obtain ⟨number, content⟩ := line
      rw [lineFaults_cons, List.filter_append, List.filter_append, ihread, ihother]
      cases content with
      | error fault =>
          rw [List.filter_cons_of_pos rfl, List.filter_cons_of_neg (by simp),
            lineFaults_cons file _ (lines.filter (!wasRead ·)), lineFaults_error]
          exact ⟨rfl, rfl⟩
      | ok text =>
          have hread : (lineFaults file [(number, .ok text)]).filter isReadFault = [] :=
            List.filter_eq_nil_iff.mpr fun fault h => by
              rw [isReadFault_of_mem_lineFaults_ok h]
              exact Bool.false_ne_true
          have hother : (lineFaults file [(number, .ok text)]).filter (!isReadFault ·) =
              lineFaults file [(number, .ok text)] :=
            List.filter_eq_self.mpr fun fault h => by
              rw [isReadFault_of_mem_lineFaults_ok h]
              rfl
          rw [hread, hother, List.filter_cons_of_neg (by simp), List.filter_cons_of_pos rfl,
            lineFaults_cons file _ (lines.filter wasRead)]
          exact ⟨rfl, rfl⟩

/-- Each line that spells no text is one fault, at the file as a whole. -/
theorem lineFaults_not_wasRead (file : String) (lines : List (List UInt8)) :
    ∀ number, lineFaults file ((numberFrom number (lines.map decodeLine)).filter (!wasRead ·)) =
      List.replicate (lines.countP isStray) ⟨.ofFile file, .unreadable .notUtf8⟩ := by
  induction lines with
  | nil =>
      intro number
      rfl
  | cons line lines ih =>
      intro number
      rw [List.map_cons, numberFrom, List.countP_cons, decodeLine, isStray]
      cases decode line with
      | none =>
          rw [List.filter_cons_of_pos rfl, lineFaults_cons, lineFaults_error, ih,
            List.singleton_append]
          rfl
      | some text =>
          rw [List.filter_cons_of_neg (by simp), ih]
          rfl

/-- A file that spells a text is read like the text.  If some of the stretches between
its newlines spell no text, there is no grammar: each of them is one fault, at the file
as a whole, and the other faults are those that the other lines give without them, with
the numbers that they have in the file, in the same order. -/
theorem load_bytes (bytes : List UInt8) (file : String) :
    (∀ text, decode bytes = some text →
      load (.bytes bytes) file = some (parse (String.ofList text) file)) ∧
    (0 < (bytes.splitOn 10).countP isStray →
      ∃ faults, load (.bytes bytes) file = some (.error faults) ∧
        faults.filter isReadFault = List.replicate ((bytes.splitOn 10).countP isStray)
          ⟨⟨file, 0⟩, .unreadable .notUtf8⟩ ∧
        faults.filter (!isReadFault ·) = faultsOf (readNumbered file
          ((numberFrom 1 ((byteLines bytes).map decodeLine)).filter wasRead))) := by
  constructor
  · intro text htext
    rw [decode_eq_some_iff.mp htext]
    exact congrArg some (parseBytes_encode text file)
  · intro hstray
    let lines := numberFrom 1 ((byteLines bytes).map decodeLine)
    obtain ⟨hread, hother⟩ := filter_lineFaults file (joinLines none lines)
    rw [filter_not_wasRead_joinLines, lineFaults_not_wasRead, Text.countP_isStray_byteLines]
      at hread
    rw [filter_wasRead_joinLines] at hother
    refine ⟨lineFaults file (joinLines none lines), ?_, hread, ?_⟩
    · refine congrArg some (readNumbered_of_lineFaults ?_)
      intro hnil
      rw [hnil, List.filter_nil, eq_comm, List.replicate_eq_nil_iff] at hread
      omega
    · rw [hother, faultsOf_readNumbered]

/-- A rule on two lines, of which the first ends in a return. -/
def plainBytes : List UInt8 := Text.Utf8.encode "S = \"é\" \\\r\n| \"b\"".toList

/-- A rule on two lines with a line between them that spells no text.  The rule has an
open quote, and the next line has no arrow. -/
def strayBytes : List UInt8 :=
  Text.Utf8.encode "S = \"a\" \\\n".toList ++ [0xC3, 13, 10] ++
    Text.Utf8.encode "| \"b\nT\n".toList

theorem load_strayBytes :
    (∃ text, decode plainBytes = some text ∧
      load (.bytes plainBytes) "f" = some (parse (String.ofList text) "f")) ∧
    0 < (strayBytes.splitOn 10).countP isStray ∧
    ∃ faults, load (.bytes strayBytes) "f" = some (.error faults) ∧
      faults.filter isReadFault = [⟨⟨"f", 0⟩, .unreadable .notUtf8⟩] ∧
      faults.filter (!isReadFault ·) =
        [⟨⟨"f", 1⟩, .rule .unclosedQuote⟩, ⟨⟨"f", 4⟩, .rule .missingArrow⟩] := by
  obtain ⟨hplain, -⟩ := load_bytes plainBytes "f"
  obtain ⟨-, hstray⟩ := load_bytes strayBytes "f"
  have hcount : (strayBytes.splitOn 10).countP isStray = 1 := by decide +kernel
  have hdecode := decode_eq_some_iff.mpr (Eq.refl plainBytes)
  have hothers : faultsOf (readNumbered "f"
      ((numberFrom 1 ((byteLines strayBytes).map decodeLine)).filter wasRead)) =
        [⟨⟨"f", 1⟩, .rule .unclosedQuote⟩, ⟨⟨"f", 4⟩, .rule .missingArrow⟩] := by
    decide +kernel
  obtain ⟨faults, hload, hread, hother⟩ := hstray (by rw [hcount]; decide)
  rw [hcount] at hread
  exact ⟨⟨_, hdecode, hplain _ hdecode⟩, by rw [hcount]; decide, faults, hload, hread,
    hother.trans hothers⟩

end SentenceGuide.Bnf
