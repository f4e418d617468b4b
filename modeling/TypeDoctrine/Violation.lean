import TypeDoctrine.Location
import TypeDoctrine.Severity
import TypeDoctrine.Text.Decimal

/-!
# Violations
-/

namespace TypeDoctrine

open TypeDoctrine.Text (decimal)

/-- A rule that a declaration breaks. -/
structure Violation where
  /-- The identifier of the rule. -/
  code : String
  /-- The name of the rule. -/
  rule : String
  severity : Severity
  location : Location
  message : String
  /-- What the message was made with. -/
  arguments : List String := []
  suggestion : Option String := none
deriving DecidableEq, Repr

namespace Location

/-- File, line and column with colons between them. -/
def display (l : Location) : String :=
  l.file ++ ":" ++ decimal l.line.toNat ++ ":" ++ decimal l.column.toNat

end Location

namespace Violation

/-- A violation on one line. -/
def display (v : Violation) : String :=
  v.location.display ++ ": " ++ v.severity.name ++ " [" ++ v.code ++ "] " ++ v.message

/-- The lines below the heading of a violation: severity and message, then the suggestion. -/
def details (v : Violation) : String :=
  "  " ++ v.severity.name ++ ": " ++ v.message ++ "\n" ++
    match v.suggestion with
    | some s => "  = help: " ++ s ++ "\n"
    | none => ""

/-- A violation over several lines. -/
def format (v : Violation) : String :=
  v.code ++ " " ++ v.rule ++ " at " ++ v.location.display ++ "\n" ++ v.details

end Violation

end TypeDoctrine
