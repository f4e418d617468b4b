import TypeDoctrine.Text.Ascii

/-!
# Quoted text

Basic strings in double quotes, with escapes, and literal strings in single quotes, without. Three quotes
open a string over several lines: a line break right after them does not count, and one or two quotes may
stand inside, also right before the closing three. Lines end in a line feed alone here.
-/

namespace TypeDoctrine.Toml

open TypeDoctrine.Text (ofDigits digitValue?)

/-- A space or a tab. -/
def isSpace (c : Char) : Bool :=
  c == ' ' || c == '\t'

/-- A character within a line: any but control characters, of which a tab is allowed. -/
def isLineChar (c : Char) : Bool :=
  c == '\t' || (0x20 ≤ c.toNat && c.toNat != 0x7F)

/-- The character whose number is written with `width` hexadecimal digits. -/
def scalar? (width : Nat) (cs : List Char) : Option Char :=
  let ds := cs.take width
  let n := ofDigits 16 ds
  if ds.length == width && ds.all (fun c => (digitValue? c).isSome) && Nat.isValidChar n then some (Char.ofNat n)
  else none

/-- The character that an escape after its backslash stands for, and how many characters write it. -/
def escape? : List Char → Option (Char × Nat)
  | 'b' :: _ => some ('\x08', 1)
  | 't' :: _ => some ('\t', 1)
  | 'n' :: _ => some ('\n', 1)
  | 'f' :: _ => some ('\x0C', 1)
  | 'r' :: _ => some ('\r', 1)
  | '"' :: _ => some ('"', 1)
  | '\\' :: _ => some ('\\', 1)
  | 'u' :: rest => (scalar? 4 rest).map fun c => (c, 5)
  | 'U' :: rest => (scalar? 8 rest).map fun c => (c, 9)
  | _ => none

/-- Puts a character before what was taken. -/
def andThen (c : Char) (taken : Option (List Char × List Char)) : Option (List Char × List Char) :=
  taken.map fun (cs, rest) => (c :: cs, rest)

/-- Takes the rest of a basic string on one line, with the closing quote. -/
def basicBody? : List Char → Option (List Char × List Char)
  | [] => none
  | c :: rest =>
    if c == '"' then some ([], rest)
    else if c == '\\' then
      match escape? rest with
      | some (d, width) => andThen d (basicBody? (rest.drop width))
      | none => none
    else if isLineChar c then andThen c (basicBody? rest)
    else none
termination_by cs => cs.length
decreasing_by all_goals simp only [List.length_drop, List.length_cons]; omega

/-- Takes the rest of a literal string on one line, with the closing quote. -/
def literalBody? (cs : List Char) : Option (List Char × List Char) :=
  let text := cs.takeWhile fun c => isLineChar c && c != '\''
  match cs.drop text.length with
  | '\'' :: rest => some (text, rest)
  | _ => none

/-- Where text stands right after the first of three closing quotes, the quotes that belong to the text,
and the rest. -/
def closing? (quote : Char) (cs : List Char) : Option (List Char × List Char) :=
  match cs with
  | a :: b :: rest =>
    if a == quote && b == quote then
      let extra := (rest.take 2).takeWhile (· == quote)
      some (extra, rest.drop extra.length)
    else none
  | _ => none

/-- Takes the rest of a literal string over several lines. -/
def literalLines? : List Char → Option (List Char × List Char)
  | [] => none
  | c :: rest =>
    if c == '\'' then
      match closing? '\'' rest with
      | some taken => some taken
      | none => andThen c (literalLines? rest)
    else if c == '\n' || isLineChar c then andThen c (literalLines? rest)
    else none

/-- What follows a backslash that ends its line: all blanks and line breaks are dropped. -/
def continued? (cs : List Char) : Option (List Char) :=
  let line := cs.dropWhile isSpace
  if line.head? == some '\n' then some (line.dropWhile fun c => isSpace c || c == '\n') else none

theorem continued?_length {cs rest : List Char} (h : continued? cs = some rest) :
    rest.length ≤ cs.length := by
  simp only [continued?] at h
  split at h
  · cases h
    have h1 := (List.dropWhile_suffix isSpace (l := cs)).length_le
    have h2 := (List.dropWhile_suffix (fun c => isSpace c || c == '\n') (l := cs.dropWhile isSpace)).length_le
    omega
  · cases h

/-- Takes the rest of a basic string over several lines. -/
def basicLines? : List Char → Option (List Char × List Char)
  | [] => none
  | c :: rest =>
    if c == '"' then
      match closing? '"' rest with
      | some taken => some taken
      | none => andThen c (basicLines? rest)
    else if c == '\\' then
      match _h : continued? rest with
      | some line => basicLines? line
      | none =>
        match escape? rest with
        | some (d, width) => andThen d (basicLines? (rest.drop width))
        | none => none
    else if c == '\n' || isLineChar c then andThen c (basicLines? rest)
    else none
termination_by cs => cs.length
decreasing_by
  · simp
  · have := continued?_length _h
    simp only [List.length_cons]; omega
  · simp only [List.length_drop, List.length_cons]; omega
  · simp

/-- Drops a line break at the start. -/
def dropBreak : List Char → List Char
  | '\n' :: rest => rest
  | cs => cs

/-- Takes a quoted text on one line. -/
def line? : List Char → Option (List Char × List Char)
  | '"' :: rest => basicBody? rest
  | '\'' :: rest => literalBody? rest
  | _ => none

/-- Takes a quoted text. -/
def quoted? : List Char → Option (List Char × List Char)
  | '"' :: '"' :: '"' :: rest => basicLines? (dropBreak rest)
  | '\'' :: '\'' :: '\'' :: rest => literalLines? (dropBreak rest)
  | cs => line? cs

end TypeDoctrine.Toml
