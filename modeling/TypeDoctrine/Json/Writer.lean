import TypeDoctrine.Json.Value
import TypeDoctrine.Text.Decimal

/-!
# Writing JSON

Two layouts: `compact` on one line, and `pretty` with a line for each item and member, two more spaces
for each level, and nothing between the brackets of an empty array or object. Strings are written as
they are, except that quotes, backslashes and control characters below `U+0020` are escaped.
-/

namespace TypeDoctrine.Json

open TypeDoctrine.Text (digitChar decimal signedDecimal)

/-- A character inside a string literal. -/
def escapeChar (c : Char) : List Char :=
  if c == '"' then ['\\', '"']
  else if c == '\\' then ['\\', '\\']
  else if c == '\x08' then ['\\', 'b']
  else if c == '\x0C' then ['\\', 'f']
  else if c == '\n' then ['\\', 'n']
  else if c == '\r' then ['\\', 'r']
  else if c == '\t' then ['\\', 't']
  else if c.toNat < 0x20 then ['\\', 'u', '0', '0', digitChar (c.toNat / 16), digitChar (c.toNat % 16)]
  else [c]

/-- A string literal. -/
def quote (s : String) : List Char :=
  '"' :: s.toList.flatMap escapeChar ++ ['"']

/-- A value without parts. One that stands for no text or number has no literal of its own and is written as
`null`. -/
def atomText : Json → List Char
  | .bool true => "true".toList
  | .bool false => "false".toList
  | .integer n => (signedDecimal n).toList
  | .real m e => (signedDecimal m ++ "e" ++ signedDecimal e).toList
  | .string s => quote s
  | _ => "null".toList

mutual

/-- A value on one line. -/
def compactText : Json → List Char
  | .array items => '[' :: compactItems items ++ [']']
  | .object members => '\x7B' :: compactMembers members ++ ['\x7D']
  | j => atomText j

/-- Items with commas between them. -/
def compactItems : List Json → List Char
  | [] => []
  | [j] => compactText j
  | j :: items => compactText j ++ ',' :: compactItems items

/-- Members with commas between them. -/
def compactMembers : List (String × Json) → List Char
  | [] => []
  | [(name, j)] => quote name ++ ':' :: compactText j
  | (name, j) :: members => quote name ++ ':' :: compactText j ++ ',' :: compactMembers members

end

/-- The start of a line at a level. -/
def newLine (level : Nat) : List Char :=
  '\n' :: List.replicate (2 * level) ' '

mutual

/-- A value over several lines, at a level. -/
def prettyText (level : Nat) : Json → List Char
  | .array [] => ['[', ']']
  | .array (j :: items) =>
    '[' :: newLine (level + 1) ++ prettyText (level + 1) j ++ prettyItems (level + 1) items ++
      newLine level ++ [']']
  | .object [] => ['\x7B', '\x7D']
  | .object ((name, j) :: members) =>
    '\x7B' :: newLine (level + 1) ++ quote name ++ ':' :: ' ' :: prettyText (level + 1) j ++
      prettyMembers (level + 1) members ++ newLine level ++ ['\x7D']
  | j => atomText j

/-- The items after the first, each with its comma and line. -/
def prettyItems (level : Nat) : List Json → List Char
  | [] => []
  | j :: items => ',' :: newLine level ++ prettyText level j ++ prettyItems level items

/-- The members after the first, each with its comma and line. -/
def prettyMembers (level : Nat) : List (String × Json) → List Char
  | [] => []
  | (name, j) :: members =>
    ',' :: newLine level ++ quote name ++ ':' :: ' ' :: prettyText level j ++ prettyMembers level members

end

/-- A value on one line. -/
def compact (j : Json) : String :=
  String.ofList (compactText j)

/-- A value over several lines. -/
def pretty (j : Json) : String :=
  String.ofList (prettyText 0 j)

end TypeDoctrine.Json
