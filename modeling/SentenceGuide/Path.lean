/-!
# Paths

A path is a text whose components are cut apart by slashes.  Repeated slashes,
a slash at the end and components that are a single dot add nothing, except
that a path may start at the root with a slash or at the present place with a
dot.  Two paths are the same if their components are, however they are spelled.

The extension of a path is what stands behind the last dot of its last
component.  A dot that the component starts with does not count, and `..`
has no extension.
-/

namespace SentenceGuide.Path

/-- A step of a path. -/
inductive Component where
  /-- The root, where a path that starts with a slash starts. -/
  | root
  /-- The present place, where a path that starts with a dot starts. -/
  | here
  /-- The place above. -/
  | above
  /-- A named place. -/
  | name (text : List Char)
  deriving DecidableEq, Repr

/-- The pieces of a text between slashes, behind the start of a piece already
read, which is written backwards. -/
def piecesFrom (piece : List Char) : List Char → List (List Char)
  | [] => [piece.reverse]
  | c :: cs => if c = '/' then piece.reverse :: piecesFrom [] cs else piecesFrom (c :: piece) cs

/-- The component that a piece behind the first one stands for, if any. -/
def Component.ofPiece (piece : List Char) : Option Component :=
  if piece = [] ∨ piece = ['.'] then none
  else if piece = ['.', '.'] then some .above
  else some (.name piece)

/-- The components of a path. -/
def components (path : String) : List Component :=
  let start : List Component :=
    match path.toList with
    | '/' :: _ => [.root]
    | ['.'] => [.here]
    | '.' :: '/' :: _ => [.here]
    | _ => []
  start ++ (piecesFrom [] path.toList).filterMap Component.ofPiece

/-- Whether two paths have the same components. -/
def same (a b : String) : Bool := components a == components b

/-- What stands behind the last dot of a component's name, if a dot stands there
that the name does not start with. -/
def extensionOf (name : List Char) : Option (List Char) :=
  let after := name.reverse.takeWhile (· != '.')
  let before := (name.reverse.dropWhile (· != '.')).drop 1
  if before.isEmpty then none else some after.reverse

/-- The extension of a path, if its last component is a name with one. -/
def extension (path : String) : Option (List Char) :=
  match (components path).getLast? with
  | some (.name name) => extensionOf name
  | _ => none

/-! ## Tests -/

example : same "a//b" "a/./b/" = true ∧ same "./a" "a" = false ∧ same "" "." = false ∧
    same "//a" "/a" = true ∧ same "/a" "a" = false := by decide +kernel

example : extension "x.json/." = some ['j', 's', 'o', 'n'] ∧ extension ".json" = none ∧
    extension "a.json." = some [] ∧ extension ".." = none := by decide +kernel

end SentenceGuide.Path
