import TypeDoctrine.Host
import TypeDoctrine.Location

/-!
# Trees of files

A tree of files and directories with a current directory, and the host that offers it. A path that starts
with a slash is followed from the root, any other from the current directory, piece by piece: an empty
piece or a dot stays, two dots go up, and a name goes down, which only a directory allows.
-/

namespace TypeDoctrine

/-- A file or a directory. -/
inductive FileNode where
  | text (s : String)
  /-- A file whose bytes are no text. -/
  | binary
  /-- A file that may not be read. -/
  | locked
  | directory
deriving DecidableEq, Repr

/-- A file with these bytes. -/
def FileNode.ofBytes (bytes : List UInt8) : FileNode :=
  match String.fromUTF8? ⟨bytes.toArray⟩ with
  | some s => .text s
  | none => .binary

/-- Why a file cannot be read. -/
inductive ReadError where
  | notFound
  | denied
  | notDirectory
  | isDirectory
  | notText
  | nameTooLong
  | nulByte
deriving DecidableEq, Repr

namespace ReadError

/-- The message of an error. -/
def message : ReadError → String
  | .notFound => "No such file or directory (os error 2)"
  | .denied => "Permission denied (os error 13)"
  | .notDirectory => "Not a directory (os error 20)"
  | .isDirectory => "Is a directory (os error 21)"
  | .notText => "stream did not contain valid UTF-8"
  | .nameTooLong => "File name too long (os error 36)"
  | .nulByte => "file name contained an unexpected NUL byte"

end ReadError

/-- Files and directories, by the names that lead to them from the root, and the current directory. -/
structure FileTree where
  entries : List (List String × FileNode) := []
  current : List String := []
deriving Repr, Inhabited

namespace FileTree

/-- Where a piece of a path leads. The root is its own parent. -/
def step (place : List String) (piece : List Char) : List String :=
  if piece == [] || piece == ['.'] then place
  else if piece == ['.', '.'] then place.dropLast
  else place ++ [String.ofList piece]

/-- The entries of a file: itself, after the directories that the pieces of its path lead through. -/
def entriesAlong (node : FileNode) (place : List String) : List (List Char) → List (List String × FileNode)
  | [] => [(place, node)]
  | piece :: rest => (place, .directory) :: entriesAlong node (step place piece) rest

/-- Where a path starts. -/
def origin (current : List String) (path : String) : List String :=
  if path.toList.head? == some '/' then [] else current

/-- The tree with this current directory and files with these paths. -/
def ofFiles (current : List String) (files : List (String × FileNode)) : FileTree where
  entries :=
    entriesAlong .directory [] (current.map String.toList) ++
      files.flatMap fun (path, node) => entriesAlong node (origin current path) (Path.pieces path.toList)
  current := current

/-- What stands at a place. The root always exists. -/
def node (t : FileTree) (place : List String) : Except ReadError FileNode :=
  match t.entries.lookup place with
  | some node => .ok node
  | none => if place == [] then .ok .directory else .error .notFound

/-- The most bytes of a name. -/
def nameLimit : Nat := 255

/-- One past the most bytes of a path. -/
def pathLimit : Nat := 4096

/-- Follows the pieces of a path from a place. -/
def follow (t : FileTree) (place : List String) : List (List Char) → Except ReadError FileNode
  | [] => t.node place
  | piece :: rest =>
    match t.node place with
    | .error e => .error e
    | .ok .directory =>
      if nameLimit < (String.ofList piece).utf8ByteSize then .error .nameTooLong
      else t.follow (step place piece) rest
    | .ok _ => .error .notDirectory

/-- What a path leads to. -/
def resolve (t : FileTree) (path : String) : Except ReadError FileNode :=
  if path.toList.contains '\x00' then .error .nulByte
  else if path == "" then .error .notFound
  else if pathLimit ≤ path.utf8ByteSize then .error .nameTooLong
  else t.follow (origin t.current path) (Path.pieces path.toList)

/-- The text of a file. -/
def read (t : FileTree) (path : String) : Except ReadError String := do
  match ← t.resolve path with
  | .text s => .ok s
  | .binary => .error .notText
  | .locked => .error .denied
  | .directory => .error .isDirectory

/-- Whether a path leads to a file. -/
def isFile (t : FileTree) (path : String) : Bool :=
  match t.resolve path with
  | .ok .directory | .error _ => false
  | .ok _ => true

/-- The host with these files. It starts every pool. -/
def host (t : FileTree) : Host where
  read path := (t.read path).mapError ReadError.message
  isFile := t.isFile
  currentDirectory := some ("/" ++ "/".intercalate t.current)

end FileTree

end TypeDoctrine
