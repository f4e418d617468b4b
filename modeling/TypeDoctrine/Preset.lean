import TypeDoctrine.Catalogue
import TypeDoctrine.Config

/-!
# Presets

A preset is a choice of rules. `minimal` has the rules on immutability and on required properties;
`recommended` has all rules; `strict` also requires `IsSuccess` of results and envelopes.
-/

namespace TypeDoctrine

/-- A choice of rules. -/
inductive Preset where
  | recommended
  | strict
  | minimal
deriving DecidableEq, Repr, Inhabited

namespace Preset

open Rules

/-- All presets. -/
def all : List Preset :=
  [.recommended, .strict, .minimal]

/-- The name of a preset in configurations. -/
def name : Preset → String
  | .recommended => "recommended"
  | .strict => "strict"
  | .minimal => "minimal"

/-- The name of a preset in messages. -/
def title : Preset → String
  | .recommended => "Recommended"
  | .strict => "Strict"
  | .minimal => "Minimal"

/-- The preset with this exact name. -/
def ofName? (s : String) : Option Preset :=
  all.find? (·.name == s)

/-- The preset of a name. -/
def named (name : String) : Except ConfigError Preset :=
  match ofName? name with
  | some p => .ok p
  | none => .error (.unknownPreset name)

/-- The preset: the given one, else the configured one, else `recommended`. -/
def resolve (given : Option String) (config : Config) : Except ConfigError Preset :=
  match given.or config.preset with
  | some name => named name
  | none => .ok .recommended

/-- Whether a preset has all rules. -/
def isFull (p : Preset) : Bool :=
  p != .minimal

/-- The rules on the shape of immutable types. -/
def shapeRules : List Rule :=
  [mustBeSealed, mustBeGetOnly, mustHideConstructors, mustHaveFactory]

/-- The rules on success flags of results and envelopes. -/
def successRules : List Rule :=
  [successNotSettable, resultSuccessDerived, envelopeSuccessDerived]

/-- The rules on single members, on builders and on components. -/
def memberRules : List Rule :=
  [valueIsPrivate, innerErrorsNotNull, completeError, successfulNotSettable, successfulComputed, mustBuild,
    methodsChain, mustBeStateless]

/-- The properties that a configuration requires besides those of a table. -/
def additional (config : Config) (r : RequiredProperties) : List String :=
  match config.sectionFor? r.entry.code r.entry.name with
  | some s => s.strings RequiredProperties.additionalProperties
  | none => []

/-- The properties that a preset requires besides those of a table. -/
def demands (p : Preset) (r : RequiredProperties) : List String :=
  if p == .strict && (r.capability == .result || r.capability == .envelope) then [isSuccess] else []

/-- The tables of required properties under a preset and a configuration. -/
def requirements (p : Preset) (config : Config) : List RequiredProperties :=
  RequiredProperties.all.map fun r => r.requireAll (p.demands r ++ additional config r)

/-- The rules of a preset under a configuration, by code. -/
def rules (p : Preset) (config : Config) : List Rule :=
  shapeRules ++ (if p.isFull then successRules else []) ++
    (p.requirements config).map RequiredProperties.toRule ++ (if p.isFull then memberRules else [])

end Preset

end TypeDoctrine
