/-!
# Severities
-/

namespace TypeDoctrine

/-- How much a violation matters, from least to most. -/
inductive Severity where
  | info
  | warning
  | error
deriving DecidableEq, Repr, Inhabited

namespace Severity

/-- The name of a severity. -/
def name : Severity → String
  | .info => "info"
  | .warning => "warning"
  | .error => "error"

/-- All severities, from least to most. -/
def all : List Severity :=
  [.info, .warning, .error]

/-- The severity with this exact name. -/
def ofName? (s : String) : Option Severity :=
  all.find? (·.name == s)

/-- The position in `all`. -/
def rank : Severity → Nat
  | .info => 0
  | .warning => 1
  | .error => 2

/-- Whether a severity reaches a threshold. -/
def reaches (s threshold : Severity) : Bool :=
  threshold.rank ≤ s.rank

end Severity

end TypeDoctrine
