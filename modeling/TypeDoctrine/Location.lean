/-!
# Source locations

Where something was declared. Locations are put in order by file, line and column; files are compared
by the components of their paths, so spellings of one path that differ in repeated slashes, in a slash
at the end or in inner dots count as equal.
-/

namespace TypeDoctrine

/-- A place in a source file. Lines, columns, offsets and lengths are 64-bit counts. -/
structure Location where
  file : String := ""
  line : UInt64 := 0
  column : UInt64 := 0
  offset : UInt64 := 0
  length : UInt64 := 0
deriving DecidableEq, Repr, Inhabited

namespace Path

/-- A component of a path. -/
inductive Component where
  | root
  | current
  | parent
  | name (s : String)
deriving DecidableEq, Repr

/-- A component as a list that sorts: root, current directory, parent directory, then names by their
characters. -/
def Component.key : Component → List Nat
  | .root => [0]
  | .current => [1]
  | .parent => [2]
  | .name s => 3 :: s.toList.map Char.toNat

/-- The pieces of a path between slashes. -/
def pieces : List Char → List (List Char)
  | [] => [[]]
  | c :: rest =>
    if c == '/' then [] :: pieces rest
    else
      match pieces rest with
      | [] => [[c]]
      | piece :: more => (c :: piece) :: more

/-- The component of a piece that is neither empty nor a dot. -/
def componentOf (piece : List Char) : Component :=
  if piece == ['.', '.'] then .parent else .name (String.ofList piece)

/-- The components of a path. Empty pieces and dots fall away, except for a dot that starts a relative
path. -/
def components (path : String) : List Component :=
  let ps := pieces path.toList
  let head : List Component :=
    if path.toList.head? == some '/' then [.root]
    else if ps.head? == some ['.'] then [.current]
    else []
  head ++ (ps.filter fun p => !(p == [] || p == ['.'])).map componentOf

/-- What paths are compared by, in lexicographic order. -/
def key (path : String) : List (List Nat) :=
  (components path).map Component.key

end Path

/-- The order of locations: file, then line, then column. -/
def Location.order : Location → Location → Ordering :=
  compareLex (compareOn fun l => Path.key l.file)
    (compareLex (compareOn fun l => l.line) (compareOn fun l => l.column))

end TypeDoctrine
