import TypeDoctrine.Analyzer
import TypeDoctrine.Config.Reader

/-!
# Checks

A check reads a configuration, analyzes types and fails if a violation reaches the threshold. Arguments
come before what the configuration says.
-/

namespace TypeDoctrine

namespace Config

/-- The names of configuration files, in the order in which they are tried. -/
def candidates : List String :=
  ["doctrine-lint.toml", ".doctrine-lint.toml"]

/-- The first configuration file in a directory. -/
def find? (host : Host) (directory : String) : Option String :=
  (candidates.map (Path.join directory)).find? host.isFile

/-- The configuration in a file. -/
def load (host : Host) (path : String) : Except ConfigError Config :=
  match host.read path with
  | .ok text => parse text
  | .error cause => .error (.unreadable path cause)

/-- The configuration of a check: that of the given file, else of the first candidate in the current
directory, else the empty one. -/
def ofCheck (host : Host) (given : Option String) : Except ConfigError Config :=
  match given with
  | some path => load host path
  | none =>
    match host.currentDirectory.bind (find? host) with
    | some path => load host path
    | none => .ok {}

end Config

/-- Why a check did not pass. -/
inductive CheckError where
  /-- There is no analyzer. -/
  | load (e : LoadError)
  /-- The analysis stopped early. -/
  | analysis (e : AnalyzerError)
  /-- Violations reach the threshold. -/
  | failed (threshold : Severity) (report : Report)
deriving DecidableEq, Repr

namespace CheckError

/-- The message of an error. -/
def message : CheckError → String
  | .load e => "doctrine-lint: " ++ e.message
  | .analysis e => "doctrine-lint: analysis failed: " ++ e.message
  | .failed threshold report => report.failureReport threshold

end CheckError

/-- What a check is asked to do. -/
structure CheckRequest where
  types : List TypeDecl
  preset : Option String := none
  configPath : Option String := none
  failOn : Option String := none

namespace CheckRequest

/-- The threshold and the analyzer of a check. The threshold is settled first. -/
def prepare (host : Host) (r : CheckRequest) (config : Config) : Except LoadError (Severity × Analyzer) := do
  let threshold ← (config.threshold r.failOn).mapError .config
  let analyzer ← Analyzer.ofConfig host r.preset config
  return (threshold, analyzer)

/-- The verdict on a report. -/
def judge (threshold : Severity) (report : Report) : Except CheckError Report :=
  if report.fails threshold then .error (.failed threshold report) else .ok report

/-- Runs a check. -/
def run (host : Host) (r : CheckRequest) : Except CheckError Report :=
  match Config.ofCheck host r.configPath with
  | .error e => .error (.load (.config e))
  | .ok config =>
    match r.prepare host config with
    | .error e => .error (.load e)
    | .ok (threshold, analyzer) =>
      match analyzer.analyzeUnless false r.types with
      | .error e => .error (.analysis e)
      | .ok report => judge threshold report

/-- The events of a check. -/
def log (host : Host) (r : CheckRequest) : List LogEvent :=
  match Config.ofCheck host r.configPath with
  | .error _ => []
  | .ok config =>
    match config.threshold r.failOn with
    | .error _ => []
    | .ok _ =>
      Analyzer.configLog r.preset config ++
        match Analyzer.ofConfig host r.preset config with
        | .error _ => []
        | .ok analyzer => analyzer.analysisLog false r.types

end CheckRequest

/-- The analyzer for the configuration in a file. -/
def Analyzer.load (host : Host) (path : String) : Except LoadError Analyzer :=
  match Config.load host path with
  | .error e => .error (.config e)
  | .ok config => Analyzer.ofConfig host none config

/-- The events of making the analyzer for the configuration in a file. -/
def Analyzer.loadLog (host : Host) (path : String) : List LogEvent :=
  match Config.load host path with
  | .error _ => []
  | .ok config =>
    { level := .debug, message := "Loaded config from " ++ path } :: Analyzer.configLog none config

end TypeDoctrine
