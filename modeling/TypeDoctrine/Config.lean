import TypeDoctrine.Registry
import TypeDoctrine.Severity
import TypeDoctrine.Toml.Value

/-!
# Configuration

A configuration chooses a preset and a threshold, adds markers, and has a section for each rule it
changes. The section of a rule is found by its exact name or, failing that, by its exact code.
-/

namespace TypeDoctrine

/-- What a configuration says of one rule. -/
structure RuleSection where
  enabled : Option Bool := none
  severity : Option Severity := none
  /-- All other settings of the section. -/
  options : List (String × Toml.Value) := []
deriving Inhabited, Repr

/-- A configuration. -/
structure Config where
  preset : Option String := none
  /-- The severity from which violations fail a check. -/
  failOn : Option String := none
  /-- How many types are examined at a time; one means in turn. -/
  parallelism : Option Nat := none
  /-- Markers besides the standard ones. -/
  capabilities : List Marker := []
  rules : List (String × RuleSection) := []
deriving Inhabited, Repr

/-- Why a configuration cannot be used. -/
inductive ConfigError where
  /-- The file cannot be read. -/
  | unreadable (path cause : String)
  /-- The text is no configuration. -/
  | malformed
  | unknownPreset (name : String)
  | unknownSeverity (name : String)
deriving DecidableEq, Repr

namespace ConfigError

/-- The message of an error. -/
def message : ConfigError → String
  | .unreadable path cause => "Failed to read config file " ++ path ++ ": " ++ cause
  | .malformed => "Failed to parse config"
  | .unknownPreset name =>
    "Unknown preset `" ++ name ++ "`. Valid presets: recommended, strict, minimal"
  | .unknownSeverity name =>
    "Unknown severity `" ++ name ++ "`. Valid values: error, warning, info"

end ConfigError

namespace RuleSection

/-- The strings in an array option; anything else has none. -/
def strings (s : RuleSection) (option : String) : List String :=
  match s.options.lookup option with
  | some (.array items) =>
    items.filterMap fun
      | .string t => some t
      | _ => none
  | _ => []

end RuleSection

namespace Config

/-- The section of the rule with this code and name. -/
def sectionFor? (c : Config) (code name : String) : Option RuleSection :=
  match c.rules.lookup name with
  | some s => some s
  | none => c.rules.lookup code

/-- Whether the rule with this code and name is checked. -/
def isEnabled (c : Config) (code name : String) : Bool :=
  ((c.sectionFor? code name).bind (·.enabled)).getD true

/-- The severity that the configuration gives to a rule. -/
def severityFor? (c : Config) (code name : String) : Option Severity :=
  (c.sectionFor? code name).bind (·.severity)

/-- The severity of a name. -/
def severityNamed (name : String) : Except ConfigError Severity :=
  match Severity.ofName? name with
  | some s => .ok s
  | none => .error (.unknownSeverity name)

/-- The threshold: the given one, else the configured one, else `error`. -/
def threshold (c : Config) (given : Option String) : Except ConfigError Severity :=
  severityNamed ((given.or c.failOn).getD "error")

end Config

end TypeDoctrine
