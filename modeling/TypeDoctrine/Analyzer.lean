import TypeDoctrine.Allowance
import TypeDoctrine.Host
import TypeDoctrine.Log
import TypeDoctrine.Preset
import TypeDoctrine.Report

/-!
# Analysis

An analyzer checks types against its rules. Only concrete classes that a marker matches are held to the
rules. The violations of several types are put in the order of their locations; where these are equal, in
the order of types and rules.
-/

namespace TypeDoctrine

open TypeDoctrine.Text (decimal)

/-- Why there is no analyzer, or no report. -/
inductive AnalyzerError where
  /-- The workers of an analyzer could not be started. -/
  | threadPool (cause : String)
  /-- The analysis was cancelled. -/
  | cancelled
deriving DecidableEq, Repr

/-- The message of an error. -/
def AnalyzerError.message : AnalyzerError → String
  | .threadPool cause => "Failed to build worker pool: " ++ cause
  | .cancelled => "Analysis cancelled"

/-- Why an analyzer cannot be made. -/
inductive LoadError where
  /-- There is no usable configuration. -/
  | config (e : ConfigError)
  | analyzer (e : AnalyzerError)
deriving DecidableEq, Repr

/-- The message of an error. -/
def LoadError.message : LoadError → String
  | .config e => e.message
  | .analyzer e => e.message

/-- Who examines the types. This shows only in the log. -/
inductive Execution where
  /-- The caller, one type after the other. -/
  | inTurn
  /-- The workers that all analyzers share. -/
  | shared
  /-- This many workers of its own. -/
  | pool (workers : Nat)
deriving DecidableEq, Repr, Inhabited

namespace Execution

/-- The execution by a number of workers, if one is asked for. -/
def ofWorkers : Option Nat → Execution
  | some 1 => .inTurn
  | some 0 | none => .shared
  | some workers => .pool workers

/-- Why a host cannot start an execution. Only workers of its own have to be started. -/
def refusal (host : Host) : Execution → Option String
  | .pool workers => host.refusal workers
  | .inTurn | .shared => none

end Execution

/-- The rules, markers and configuration of an analysis. -/
structure Analyzer where
  rules : List Rule := []
  registry : Registry := .standard
  config : Config := {}
  execution : Execution := .shared

namespace Analyzer

/-- Whether the configuration leaves a rule on. -/
def isEnabled (a : Analyzer) (r : Rule) : Bool :=
  a.config.isEnabled r.code r.name

/-- A violation of a rule with the severity that the configuration gives it. -/
def withSeverity (a : Analyzer) (r : Rule) (v : Violation) : Violation :=
  match a.config.severityFor? r.code r.name with
  | some severity => { v with severity }
  | none => v

/-- What is left of the violations of a rule in a type: all with their configured severity, or, in a type
that is exempt, at most a warning that the exemption is not justified. -/
def reported (a : Analyzer) (t : TypeDecl) (r : Rule) (found : List Violation) : List Violation :=
  if found.isEmpty then []
  else
    match r.allowance t with
    | .denied => found.map (a.withSeverity r)
    | .allowed reason => if r.needsReason && reason.isNone then [r.missingReason t] else []

/-- What a rule contributes to the violations of a type. -/
def contribution (a : Analyzer) (s : Subject) (r : Rule) : List Violation :=
  if r.applies s.classification && a.isEnabled r then a.reported s.type r (r.check s) else []

/-- The outcome of a type: none if it is no concrete class, else its violations. There are no violations in
a class that no marker matches. -/
def outcome? (a : Analyzer) (t : TypeDecl) : Option (List Violation) :=
  let s := Subject.of a.registry t
  if !t.isConcreteClass then none
  else if s.classification.isEmpty then some []
  else some (a.rules.flatMap (a.contribution s))

/-- The violations of a type. -/
def evaluate (a : Analyzer) (t : TypeDecl) : List Violation :=
  (a.outcome? t).getD []

/-- Whether a violation may stand before another. -/
def precedes (v w : Violation) : Bool :=
  (Location.order v.location w.location).isLE

/-- The violations of types, in order, and the number of types that have an outcome. -/
def analyze (a : Analyzer) (types : List TypeDecl) : Report :=
  let found := Report.ofOutcomes (types.map a.outcome?)
  { found with violations := found.violations.mergeSort precedes }

/-- An analysis that may be cancelled from the start; it is noticed before the first type. -/
def analyzeUnless (a : Analyzer) (cancelled : Bool) (types : List TypeDecl) : Except AnalyzerError Report :=
  if cancelled && !types.isEmpty then .error .cancelled else .ok (a.analyze types)

/-! ## Logs -/

/-- The events of checking one rule. -/
def ruleLog (a : Analyzer) (s : Subject) (r : Rule) : List LogEvent :=
  if !r.applies s.classification then []
  else if !a.isEnabled r then [{ level := .debug, message := "Skipping disabled rule: " ++ r.name }]
  else if (r.check s).isEmpty then []
  else
    match r.allowance s.type with
    | .denied => []
    | .allowed _ => [{ level := .debug, message := "Suppressed " ++ r.code ++ " on " ++ s.type.name }]

/-- The events of evaluating a type. -/
def evaluationLog (a : Analyzer) (t : TypeDecl) : List LogEvent :=
  let s := Subject.of a.registry t
  if !t.isConcreteClass then [{ level := .debug, message := "Skipping non-concrete type: " ++ t.name }]
  else if s.classification.isEmpty then [{ level := .debug, message := "No doctrine markers on " ++ t.name }]
  else a.rules.flatMap (a.ruleLog s)

/-- The event at the start of an analysis. -/
def startEvent (a : Analyzer) (types : List TypeDecl) : LogEvent where
  level := .info
  message :=
    "Starting analysis of " ++ decimal types.length ++ " types with " ++ decimal a.rules.length ++ " rules"

/-- The event at the end of an analysis. -/
def endEvent (r : Report) : LogEvent where
  level := .info
  message :=
    "Analysis complete: " ++ decimal r.violations.length ++ " violations in " ++
      decimal r.typesChecked.toNat ++ " types"

/-- The events of an analysis. Those of single types are among them only if types are examined in turn. -/
def analysisLog (a : Analyzer) (cancelled : Bool) (types : List TypeDecl) : List LogEvent :=
  match a.analyzeUnless cancelled types with
  | .error _ => [a.startEvent types]
  | .ok r =>
    a.startEvent types :: (if a.execution == .inTurn then types.flatMap a.evaluationLog else []) ++ [endEvent r]

/-! ## Assembly -/

/-- The parts that an analyzer is made of. -/
structure Setup where
  rules : List Rule := []
  /-- The markers to start with, if not the standard ones. -/
  registry : Option Registry := none
  /-- Markers to add. -/
  markers : List Marker := []
  config : Option Config := none
  /-- How many types are examined at a time, if the configuration is not to say. -/
  parallelism : Option Nat := none

namespace Setup

/-- The analyzer of a setup. Its markers are those of the registry, of the configuration and of the setup,
in this order. -/
def finish (s : Setup) (execution : Execution) : Analyzer :=
  let config := s.config.getD {}
  { rules := s.rules
    registry := ((s.registry.getD .standard).withMarkers config.capabilities).withMarkers s.markers
    config, execution }

/-- The analyzer of a setup that examines types in turn. -/
def buildSequential (s : Setup) : Analyzer :=
  s.finish .inTurn

/-- The execution that a setup asks for. -/
def execution (s : Setup) : Execution :=
  .ofWorkers (s.parallelism.or (s.config.bind (·.parallelism)))

/-- The analyzer of a setup, once its workers are started. -/
def build (host : Host) (s : Setup) : Except AnalyzerError Analyzer :=
  match s.execution.refusal host with
  | some cause => .error (.threadPool cause)
  | none => .ok (s.finish s.execution)

end Setup

/-- The analyzer of the recommended rules and the standard markers. -/
def standard : Analyzer :=
  ({ rules := Preset.rules .recommended {} } : Setup).buildSequential

/-- The setup of a preset under a configuration. -/
def setup (p : Preset) (config : Config) : Setup :=
  { rules := p.rules config, config := some config }

/-- The analyzer of a preset under a configuration. -/
def ofPreset (p : Preset) (config : Config) : Analyzer :=
  (setup p config).finish (setup p config).execution

/-- The analyzer for a configuration. The given preset comes before the configured one. -/
def ofConfig (host : Host) (given : Option String) (config : Config) : Except LoadError Analyzer :=
  match Preset.resolve given config with
  | .error e => .error (.config e)
  | .ok p => ((setup p config).build host).mapError .analyzer

/-- Whether a key stands before another. -/
def keyPrecedes (a b : String) : Bool :=
  !(b < a)

/-- The warnings about sections that belong to no rule. -/
def sectionWarnings (config : Config) : List LogEvent :=
  let unknown := ((config.rules.map (·.1)).filter fun key => !Catalogue.hasKey key).mergeSort keyPrecedes
  unknown.map fun key =>
    { level := .warn, message := "Unknown rule `" ++ key ++ "` in config; it has no effect" }

/-- The events of making the analyzer for a configuration. -/
def configLog (given : Option String) (config : Config) : List LogEvent :=
  sectionWarnings config ++
    match Preset.resolve given config with
    | .error _ => []
    | .ok p =>
      [{ level := .info
         message := "Using " ++ p.title ++ " preset with " ++ decimal (p.rules config).length ++ " rules" }]

end Analyzer

end TypeDoctrine
