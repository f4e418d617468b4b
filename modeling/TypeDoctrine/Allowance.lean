import TypeDoctrine.Rule

/-!
# Allowances

A type may be exempt from a rule by a suppression that covers the rule. Rules that need a reason are still
reported, as a warning, when no covering suppression is justified.
-/

namespace TypeDoctrine

/-- Whether a type is exempt from a rule, and why. -/
inductive Allowance where
  | denied
  | allowed (reason : Option String)
deriving DecidableEq, Repr

namespace Suppression

/-- The justification without blanks around it, if anything is left. -/
def reason? (s : Suppression) : Option String :=
  s.justification.bind fun text =>
    let trimmed := Text.trim text.toList
    if trimmed.isEmpty then none else some (String.ofList trimmed)

end Suppression

namespace Rule

/-- The suppressions of a type that cover a rule. -/
def covering (r : Rule) (t : TypeDecl) : List Suppression :=
  t.suppressions.filter fun s => s.covers r.code r.name

/-- Whether a type is exempt from a rule. Of several suppressions, the first justified one counts. -/
def allowance (r : Rule) (t : TypeDecl) : Allowance :=
  match r.covering t with
  | [] => .denied
  | found => .allowed (found.findSome? Suppression.reason?)

/-- The warning that a suppression of a rule is not justified. -/
def missingReason (r : Rule) (t : TypeDecl) : Violation where
  code := r.code
  rule := r.name
  severity := .warning
  location := t.location
  message := "Suppression of '" ++ r.name ++ "' on '" ++ t.name ++ "' is missing required justification"
  suggestion := some "Add a justification explaining why this type is exempt"

end Rule

end TypeDoctrine
