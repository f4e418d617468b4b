import TypeDoctrine.Source.Interpolation
import TypeDoctrine.Source.Token

/-!
# Identifiers of a member body

`identifiers` gives the distinct names that a getter or method body mentions, in the order they are first
seen. The body is expanded (only the holes of interpolated strings are code) and read as tokens; a body
that has no tokens, such as a truncated one, is scanned plainly for ASCII words.
-/

namespace TypeDoctrine.Source

/-- A letter, digit or underscore of ASCII. -/
def isPlainPart (c : Char) : Bool :=
  c.isAlphanum || c == '_'

/-- The ASCII words of a text outside comments, strings and character literals. A run of letters and
digits that starts with a digit is a number. -/
def plainWords : List Char → List (List Char)
  | [] => []
  | c :: rest =>
    if c == '/' && rest.head? == some '/' then plainWords (rest.dropWhile (· != '\n'))
    else if c == '/' && rest.head? == some '*' then plainWords (splitComment (rest.drop 1)).2
    else if c == '"' || c == '\'' then plainWords (splitLiteral c false rest).2
    else if c.isAlpha || c == '_' then
      (c :: rest.takeWhile isPlainPart) :: plainWords (rest.dropWhile isPlainPart)
    else if c.isDigit then plainWords (rest.dropWhile isPlainPart)
    else plainWords rest
termination_by cs => cs.length
decreasing_by
  · have := (List.dropWhile_suffix (fun d => d != '\n') (l := rest)).length_le
    simp only [List.length_cons]; omega
  · have := splitComment_length (rest.drop 1)
    simp only [List.length_drop, List.length_cons] at this ⊢; omega
  · have := splitLiteral_length c false rest
    simp only [List.length_cons]; omega
  · have := (List.dropWhile_suffix isPlainPart (l := rest)).length_le
    simp only [List.length_cons]; omega
  · have := (List.dropWhile_suffix isPlainPart (l := rest)).length_le
    simp only [List.length_cons]; omega
  · simp

/-- The names among tokens, in order. -/
def Token.names (ts : List Token) : List (List Char) :=
  ts.filterMap fun
    | .word name => some name
    | _ => none

/-- The names that a text mentions, in order and with repetitions. -/
def mentions (cs : List Char) : List (List Char) :=
  match tokens? cs with
  | some ts => Token.names ts
  | none => plainWords cs

/-- The distinct names that a member body mentions, in first-seen order. -/
def identifiers (source : String) : List String :=
  (mentions (expand source.toList)).eraseDups.map String.ofList

end TypeDoctrine.Source
