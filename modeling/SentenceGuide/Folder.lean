import SentenceGuide.Path
import SentenceGuide.Source

/-!
# Folders

A folder holds files under paths of names.  Opening a path follows it from the
folder on, piece by piece between its slashes.

* An empty piece or a dot stays where it is.
* Two dots go to the folder above.
* A name goes to what the folder holds under that name.

A file can only be the last piece.  Behind it even an empty piece asks for a
folder, so `a/` does not open the file `a`.  A path that ends at a folder opens,
but there are no bytes to read.

Nothing is known of what lies outside the outermost folder, which is as good as
an empty folder.  A path from the root starts there.
-/

namespace SentenceGuide

/-- Files, each with the names that lead to it. -/
structure Folder where
  /-- The names that lead to a file, and its bytes. -/
  files : List (List (List Char) × List UInt8)

namespace Folder

/-- Holds nothing. -/
def empty : Folder := ⟨[]⟩

/-- The names in a path. -/
def namesOf (path : String) : List (List Char) :=
  (Path.components path).filterMap fun
    | .name text => some text
    | _ => none

/-- The folder with some files at some paths. -/
def ofFiles (files : List (String × List UInt8)) : Folder :=
  ⟨files.map fun (path, content) => (namesOf path, content)⟩

/-- What a folder holds under a name. -/
def enter (name : List Char) (folder : Folder) : Folder :=
  ⟨folder.files.filterMap fun
    | (first :: names, content) => if first = name then some (names, content) else none
    | ([], _) => none⟩

/-- The bytes of the file that is all there is. -/
def content? (folder : Folder) : Option (List UInt8) :=
  (folder.files.find? (·.1.isEmpty)).map (·.2)

/-- The most bytes that a name can have. -/
def longestName : Nat := 255

/-- The most bytes that a path can have. -/
def longestPath : Nat := 4095

/-- Follows pieces of a path from a folder that lies in others, the innermost of
them first. -/
def follow (above : List Folder) (here : Folder) : List (List Char) → Source
  | [] => .unreadable .directory
  | piece :: pieces =>
      match Path.Component.ofPiece piece with
      | none => follow above here pieces
      | some (.name name) =>
          let there := here.enter name
          if longestName < (String.ofList name).utf8ByteSize then .missing .nameTooLong
          else
            match there.content? with
            | some content => if pieces.isEmpty then .bytes content else .missing .notDirectory
            | none =>
                if there.files.isEmpty then .missing .noSuchFile
                else follow (here :: above) there pieces
      | some _ =>
          match above with
          | [] => follow [] empty pieces
          | folder :: above => follow above folder pieces

/-- What a path holds, seen from a folder. -/
def read (folder : Folder) (path : String) : Source :=
  let start := if path.toList.head? = some '/' then empty else folder
  if '\x00' ∈ path.toList then .missing .zeroInPath
  else if path.isEmpty then .missing .noSuchFile
  else if longestPath < path.utf8ByteSize then .missing .nameTooLong
  else follow [] start (Path.piecesFrom [] path.toList)

/-! ## Tests -/

example : (ofFiles [("a", [1])]).read "./a" = .bytes [1] ∧
    (ofFiles [("a", [1])]).read "a/." = .missing .notDirectory ∧
    (ofFiles [("a", [1])]).read "b" = .missing .noSuchFile ∧
    (ofFiles [("a", [1])]).read "/a" = .missing .noSuchFile ∧
    (ofFiles [("a", [1])]).read "." = .unreadable .directory := by decide +kernel

example : (ofFiles [("d/a", [1])]).read "d/../d//a" = .bytes [1] ∧
    (ofFiles [("d/a", [1])]).read "d/" = .unreadable .directory := by decide +kernel

end Folder

end SentenceGuide
