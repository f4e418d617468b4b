import TypeDoctrine.Text.Decimal

/-!
# Message templates

A template is text with numbered places, written `{0}`, `{1}` and so on; a brace that is text is written
twice. `render` fills the places of any text, well formed or not: braces that fit neither form stand for
themselves, and a place without argument stays empty.
-/

namespace TypeDoctrine.Template

open TypeDoctrine.Text (ofDigits)

/-- What an index between braces stands for: its argument, or nothing beyond the last. -/
def argumentText (args : List String) (index : List Char) : List Char :=
  ((args[ofDigits 10 index]?).getD "").toList

/-- Fills the places of a template. -/
def renderChars (args : List String) : List Char → List Char
  | [] => []
  | c :: rest =>
    if (c == '\x7B' || c == '\x7D') && rest.head? == some c then c :: renderChars args (rest.drop 1)
    else if c == '\x7B' then
      let index := rest.takeWhile (· != '\x7D')
      if !index.isEmpty && index.all Char.isDigit && index.length < rest.length then
        argumentText args index ++ renderChars args (rest.drop (index.length + 1))
      else c :: renderChars args rest
    else c :: renderChars args rest
termination_by cs => cs.length
decreasing_by all_goals simp only [List.length_drop, List.length_cons]; omega

/-- The message of a template with arguments. -/
def render (template : String) (args : List String) : String :=
  String.ofList (renderChars args template.toList)

end TypeDoctrine.Template
