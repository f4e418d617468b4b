import TypeDoctrine.Toml.Number
import TypeDoctrine.Toml.Quoted
import TypeDoctrine.Toml.Table

/-!
# Documents

A document is a list of statements, one a line: a key with a value, or a header that opens a table for the
keys that follow. `parse?` reads the statements and builds the table of the document.
-/

namespace TypeDoctrine.Toml

/-- A dotted key: the tables that it leads through, and the last part. -/
structure Key where
  path : List String
  last : String
deriving DecidableEq, Repr

/-- A statement of a document. -/
inductive Statement where
  | entry (key : Key) (v : Value)
  | table (key : Key)
  | nextTable (key : Key)
deriving Repr

/-! ## Keys -/

/-- A character of a bare key. -/
def isBare (c : Char) : Bool :=
  c.isAlphanum || c == '_' || c == '-'

/-- Drops spaces and tabs. -/
def dropSpaces (cs : List Char) : List Char :=
  cs.dropWhile isSpace

/-- Takes one part of a key: bare, or quoted on one line. -/
def part? (cs : List Char) : Option (List Char × List Char) :=
  let bare := cs.takeWhile isBare
  if bare.isEmpty then line? cs else some (bare, cs.drop bare.length)

/-- Takes the parts of a dotted key, at most `limit` of them. -/
def parts? : Nat → List Char → Option (List String × List Char)
  | 0, _ => none
  | limit + 1, cs => do
    let (part, cs) ← part? (dropSpaces cs)
    match dropSpaces cs with
    | '.' :: rest =>
      let (parts, rest) ← parts? limit rest
      return (String.ofList part :: parts, rest)
    | rest => return ([String.ofList part], rest)

/-- The largest number of parts of a key, and of arrays and inline tables inside each other. -/
def nestingLimit : Nat := 79

/-- Takes a key. -/
def key? (cs : List Char) : Option (Key × List Char) := do
  let (parts, cs) ← parts? nestingLimit cs
  let last ← parts.getLast?
  return ({ path := parts.dropLast, last }, cs)

/-! ## Values -/

/-- Drops blanks, line breaks and comments. -/
def skipLines : List Char → List Char
  | [] => []
  | c :: rest =>
    if isSpace c || c == '\n' then skipLines rest
    else if c == '#' then
      match _h : rest.dropWhile isLineChar with
      | '\n' :: more => skipLines more
      | stop => stop
    else c :: rest
termination_by cs => cs.length
decreasing_by
  · simp
  · have h := (List.dropWhile_suffix isLineChar (l := rest)).length_le
    rw [_h] at h
    simp only [List.length_cons] at h ⊢; omega

/-- Takes the items of an array and the closing bracket. A comma may follow the last item. -/
def items? (item : List Char → Option (Value × List Char)) (cs : List Char) :
    Option (List Value × List Char) :=
  match skipLines cs with
  | ']' :: rest => some ([], rest)
  | start =>
    match item start with
    | none => none
    | some (v, rest) =>
      match skipLines rest with
      | ']' :: rest => some ([v], rest)
      | ',' :: rest =>
        if rest.length < cs.length then (items? item rest).map fun (vs, rest) => (v :: vs, rest)
        else none
      | _ => none
termination_by cs.length

/-- Takes a key, an equals sign and a value. -/
def pair? (item : List Char → Option (Value × List Char)) (cs : List Char) :
    Option ((Key × Value) × List Char) := do
  let (key, cs) ← key? cs
  let cs ← mark? '=' cs
  let (v, cs) ← item (dropSpaces cs)
  return ((key, v), cs)

/-- Takes the pairs of an inline table and the closing brace. No comma follows the last pair. -/
def pairs? (item : List Char → Option (Value × List Char)) (cs : List Char) :
    Option (List (Key × Value) × List Char) :=
  match pair? item cs with
  | none => none
  | some (pair, rest) =>
    match dropSpaces rest with
    | '\x7D' :: rest => some ([pair], rest)
    | ',' :: rest =>
      if rest.length < cs.length then (pairs? item rest).map fun (pairs, rest) => (pair :: pairs, rest)
      else none
    | _ => none
termination_by cs.length

/-- The table that pairs make. -/
def tableOf? (pairs : List (Key × Value)) : Option Value :=
  let add (entries : Entries) (pair : Key × Value) := entries.insert pair.1.path pair.1.last pair.2
  (pairs.foldlM add []).map fun entries => .table (entriesToValues entries)

/-- Takes the rest of an inline table. -/
def inlineTable? (item : List Char → Option (Value × List Char)) (cs : List Char) :
    Option (Value × List Char) :=
  match dropSpaces cs with
  | '\x7D' :: rest => some (.table [], rest)
  | _ => do
    let (pairs, rest) ← pairs? item cs
    let table ← tableOf? pairs
    return (table, rest)

/-- Takes a moment or a number. -/
def figure? (cs : List Char) : Option (Value × List Char) :=
  match moment? cs with
  | some (m, rest) => some (.moment m, rest)
  | none =>
    match float? cs with
    | some (x, rest) => some (.float x, rest)
    | none => (integer? cs).map fun (n, rest) => (.integer n, rest)

/-- Takes a value without parts. -/
def simple? (cs : List Char) : Option (Value × List Char) :=
  match cs with
  | '"' :: _ | '\'' :: _ => (quoted? cs).map fun (text, rest) => (.string (String.ofList text), rest)
  | 't' :: 'r' :: 'u' :: 'e' :: rest => some (.boolean true, rest)
  | 'f' :: 'a' :: 'l' :: 's' :: 'e' :: rest => some (.boolean false, rest)
  | _ => figure? cs

/-- Takes a value with arrays and inline tables at most `depth` deep. -/
def value? : Nat → List Char → Option (Value × List Char)
  | 0, cs => simple? cs
  | depth + 1, cs =>
    match cs with
    | '[' :: rest => (items? (value? depth) rest).map fun (items, rest) => (.array items, rest)
    | '\x7B' :: rest => inlineTable? (value? depth) rest
    | _ => simple? cs

/-! ## Statements -/

/-- Takes the end of a line, with blanks and a comment before it. -/
def lineEnd? (cs : List Char) : Option (List Char) :=
  let cs := dropSpaces cs
  let cs := if cs.head? == some '#' then cs.dropWhile isLineChar else cs
  match cs with
  | [] => some []
  | '\n' :: rest => some rest
  | _ => none

/-- Takes a statement and the end of its line. -/
def statement? (cs : List Char) : Option (Statement × List Char) :=
  match cs with
  | '[' :: '[' :: rest => do
    let (key, rest) ← key? rest
    let rest ← mark? ']' rest
    let rest ← mark? ']' rest
    let rest ← lineEnd? rest
    return (.nextTable key, rest)
  | '[' :: rest => do
    let (key, rest) ← key? rest
    let rest ← mark? ']' rest
    let rest ← lineEnd? rest
    return (.table key, rest)
  | _ => do
    let ((key, v), rest) ← pair? (value? nestingLimit) cs
    let rest ← lineEnd? rest
    return (.entry key v, rest)

/-- The statements of a text. -/
def statements? (cs : List Char) : Option (List Statement) :=
  match skipLines cs with
  | [] => some []
  | start =>
    match statement? start with
    | none => none
    | some (s, rest) =>
      if rest.length < cs.length then (statements? rest).map (s :: ·) else none
termination_by cs.length

/-- A document in the making: its entries, and the table that the last header opened. -/
structure Draft where
  entries : Entries := []
  current : List String := []

/-- A draft after one more statement. -/
def Draft.add (d : Draft) : Statement → Option Draft
  | .table key =>
    (d.entries.openTable key.path key.last).map fun entries => { entries, current := key.path ++ [key.last] }
  | .nextTable key =>
    (d.entries.openNext key.path key.last).map fun entries => { entries, current := key.path ++ [key.last] }
  | .entry key v =>
    (d.entries.within .implied (fun _ inner => inner.insert key.path key.last v) d.current .header).map
      fun entries => { d with entries }

/-- Makes line feeds of the pairs of carriage return and line feed. A carriage return alone is allowed
nowhere. -/
def joinBreaks? : List Char → Option (List Char)
  | [] => some []
  | '\r' :: '\n' :: rest => (joinBreaks? rest).map ('\n' :: ·)
  | c :: rest => if c == '\r' then none else (joinBreaks? rest).map (c :: ·)

/-- Drops a byte order mark at the start. -/
def dropMark : List Char → List Char
  | '\uFEFF' :: rest => rest
  | cs => cs

/-- The entries of the table that a document makes. -/
def parse? (text : String) : Option (List (String × Value)) := do
  let cs ← joinBreaks? (dropMark text.toList)
  let statements ← statements? cs
  let draft ← statements.foldlM Draft.add {}
  return entriesToValues draft.entries

end TypeDoctrine.Toml
