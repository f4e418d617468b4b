/-!
# The host

What a run meets outside itself: files, the current directory, and workers. A run is given its host and
assumes nothing of it.
-/

namespace TypeDoctrine

/-- What a run meets outside itself. -/
structure Host where
  /-- The text of the file that a path leads to, or why it cannot be read. -/
  read : String → Except String String
  /-- Whether a path leads to a file. -/
  isFile : String → Bool
  /-- The current directory, unless it cannot be told. -/
  currentDirectory : Option String := none
  /-- Why a pool of so many workers cannot be started, if it cannot. -/
  refusal : Nat → Option String := fun _ => none

/-- A path inside a directory. -/
def Path.join (directory name : String) : String :=
  if directory == "" || directory.toList.getLast? == some '/' then directory ++ name
  else directory ++ "/" ++ name

end TypeDoctrine
