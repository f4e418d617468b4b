import TypeDoctrine.Text.Ascii
import TypeDoctrine.Text.Blank

/-!
# Generic names

The display name of a type or interface, cut into its name and its number of type arguments. Arguments
are written in angle brackets (`Ns.IResult<int>`, also open as in `Ns.IEnvelope<,>`) or counted after a
grave accent (``Ns.IResult`1``).
-/

namespace TypeDoctrine

/-- A name and the number of its type arguments. -/
structure GenericName where
  base : String
  arity : Nat
deriving DecidableEq, Repr

namespace GenericName

open TypeDoctrine.Text (trim trimEnd dropEndWhile natural?)

/-- The mark of a name that starts at the global namespace. -/
def globalMark : List Char :=
  "global::".toList

/-- Drops every global mark at the start. -/
def dropGlobal (cs : List Char) : List Char :=
  if _h : globalMark.isPrefixOf cs then dropGlobal (cs.drop globalMark.length) else cs
termination_by cs.length
decreasing_by
  have := (List.isPrefixOf_iff_prefix.1 _h).length_le
  have : globalMark.length = 8 := by decide
  simp only [List.length_drop]; omega

/-- The commas that stand in no inner angle brackets. -/
def outerCommas (depth : Nat) : List Char → Nat
  | [] => 0
  | c :: rest =>
    if c == '<' then outerCommas (depth + 1) rest
    else if c == '>' then outerCommas (depth - 1) rest
    else if c == ',' && depth == 0 then outerCommas depth rest + 1
    else outerCommas depth rest

/-- The number of arguments in a list of arguments; closing angle brackets at its end do not count. -/
def argumentCount (arguments : List Char) : Nat :=
  outerCommas 0 (dropEndWhile (· == '>') arguments) + 1

/-- A count of arguments as it stands after the grave accent: digits, perhaps with a plus sign. -/
def count? : List Char → Option Nat
  | '+' :: ds => natural? ds
  | ds => natural? ds

/-- Splits at the last grave accent. -/
def splitAccent? (cs : List Char) : Option (List Char × List Char) :=
  let count := (cs.reverse.takeWhile (· != '\x60')).reverse
  if count.length < cs.length then some (cs.take (cs.length - count.length - 1), count) else none

/-- Cuts a trimmed name without global marks. -/
def ofChars (cs : List Char) : GenericName :=
  if cs.contains '<' then
    { base := String.ofList (trimEnd (cs.takeWhile (· != '<')))
      arity := argumentCount ((cs.dropWhile (· != '<')).drop 1) }
  else
    match splitAccent? cs with
    | some (base, count) =>
      match count? count with
      | some arity => { base := String.ofList base, arity }
      | none => { base := String.ofList cs, arity := 0 }
    | none => { base := String.ofList cs, arity := 0 }

/-- Cuts a display name; blanks around it and global marks before it fall away. -/
def parse (name : String) : GenericName :=
  ofChars (dropGlobal (trim name.toList))

end GenericName

end TypeDoctrine
