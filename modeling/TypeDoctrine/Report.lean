import TypeDoctrine.Violation

/-!
# Reports

The violations that an analysis found, how they are counted, and how they are shown.
-/

namespace TypeDoctrine

open TypeDoctrine.Text (decimal)

/-- What an analysis found. -/
structure Report where
  violations : List Violation := []
  /-- The number of concrete classes that were examined. -/
  typesChecked : UInt64 := 0
deriving DecidableEq, Repr, Inhabited

/-- How many violations there are of each severity. -/
structure Counts where
  errors : Nat
  warnings : Nat
  infos : Nat
deriving DecidableEq, Repr

/-- A violation as an editor shows it. -/
structure Diagnostic where
  message : String
  help : Option String
  offset : UInt64
  length : UInt64
  label : String
deriving DecidableEq, Repr

/-- How a report is written. -/
inductive OutputFormat where
  | text
  | compact
  | json
deriving DecidableEq, Repr, Inhabited

namespace OutputFormat

/-- All formats. -/
def all : List OutputFormat :=
  [.text, .compact, .json]

/-- The name of a format. -/
def name : OutputFormat → String
  | .text => "text"
  | .compact => "compact"
  | .json => "json"

/-- The format with this exact name. -/
def ofName? (s : String) : Option OutputFormat :=
  all.find? (·.name == s)

end OutputFormat

/-- The diagnostic of a violation. -/
def Violation.diagnostic (v : Violation) : Diagnostic where
  message := "[" ++ v.code ++ "] " ++ v.message
  help := v.suggestion
  offset := v.location.offset
  length := v.location.length
  label := v.rule

namespace Report

/-- The violations that reach a threshold. -/
def failing (r : Report) (threshold : Severity) : List Violation :=
  r.violations.filter (·.severity.reaches threshold)

/-- Whether a violation reaches a threshold. -/
def fails (r : Report) (threshold : Severity) : Bool :=
  r.violations.any (·.severity.reaches threshold)

/-- Whether there is an error. -/
def hasErrors (r : Report) : Bool :=
  r.fails .error

/-- The violations of the rule with this exact code. -/
def byRule (r : Report) (code : String) : List Violation :=
  r.violations.filter (·.code == code)

/-- The number of violations of a severity. -/
def count (r : Report) (severity : Severity) : Nat :=
  r.violations.countP (·.severity == severity)

/-- The number of violations of each severity. -/
def counts (r : Report) : Counts where
  errors := r.count .error
  warnings := r.count .warning
  infos := r.count .info

/-- A report with one more class that was examined, and what was found in it. -/
def add (r : Report) (found : List Violation) : Report where
  violations := r.violations ++ found
  typesChecked := r.typesChecked + 1

/-- The report of the outcomes of several types, in turn. Types without outcome were not examined. -/
def ofOutcomes (outcomes : List (Option (List Violation))) : Report :=
  (outcomes.filterMap id).foldl add {}

/-- Two reports in one. -/
def extend (r other : Report) : Report where
  violations := r.violations ++ other.violations
  typesChecked := r.typesChecked + other.typesChecked

/-- The counts of a report in words. -/
def summary (r : Report) : String :=
  decimal r.counts.errors ++ " error(s), " ++ decimal r.counts.warnings ++ " warning(s), " ++
    decimal r.counts.infos ++ " info(s) in " ++ decimal r.typesChecked.toNat ++ " type(s)"

/-- A report over several lines, with suggestions. -/
def text (r : Report) : String :=
  String.join (r.violations.map fun v => v.format ++ "\n") ++ "Found " ++ r.summary ++ "\n"

/-- A report with a line for each violation. -/
def lines (r : Report) : String :=
  String.join (r.violations.map fun v => v.display ++ "\n")

/-- A violation in the report of a failed check. -/
def failureText (v : Violation) : String :=
  v.rule ++ " [" ++ v.code ++ "] at " ++ v.location.display ++ "\n" ++ v.details ++ "\n"

/-- The report of a failed check: the violations that reach the threshold, and the counts of all. -/
def failureReport (r : Report) (threshold : Severity) : String :=
  "\n=== doctrine-lint: " ++ decimal (r.failing threshold).length ++ " violation(s) ===\n\n" ++
    String.join ((r.failing threshold).map failureText) ++ "Total: " ++ r.summary

end Report

end TypeDoctrine
