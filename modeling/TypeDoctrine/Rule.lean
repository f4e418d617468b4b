import TypeDoctrine.Registry
import TypeDoctrine.Template
import TypeDoctrine.Violation

/-!
# Rules

A rule has an entry that describes it, chooses the types it applies to by their classification, and
finds violations in a type.
-/

namespace TypeDoctrine

/-- The description of a rule. -/
structure RuleEntry where
  code : String
  name : String
  category : Category
  severity : Severity
  title : String
  /-- The template of its messages. -/
  messageFormat : String
  description : String := ""
deriving DecidableEq, Repr, Inhabited

namespace RuleEntry

/-- The message of a rule with arguments. -/
def message (e : RuleEntry) (args : List String) : String :=
  Template.render e.messageFormat args

/-- Whether a key names the rule: its code in any case, or its exact name. -/
def isNamedBy (e : RuleEntry) (key : String) : Bool :=
  Text.sameIgnoringCase e.code key || e.name == key

/-- The violation of a rule at a location, with the title as suggestion. -/
def violation (e : RuleEntry) (location : Location) (args : List String) : Violation where
  code := e.code
  rule := e.name
  severity := e.severity
  location := location
  message := e.message args
  arguments := args
  suggestion := some e.title

end RuleEntry

/-- A type under examination. -/
structure Subject where
  type : TypeDecl
  classification : Classification
  registry : Registry

namespace Subject

/-- A type as a registry classifies it. -/
def of (registry : Registry) (type : TypeDecl) : Subject :=
  { type, classification := registry.classify type, registry }

/-- Whether the type has a capability. -/
def has (s : Subject) (capability : Capability) : Bool :=
  s.classification.has capability

/-- The first property of a name. -/
def property? (s : Subject) (name : String) : Option Property :=
  s.type.property? name

/-- A violation where the type is declared. -/
def atType (s : Subject) (e : RuleEntry) (args : List String) : Violation :=
  e.violation s.type.location args

end Subject

/-- A rule. -/
structure Rule where
  entry : RuleEntry
  /-- Whether the rule concerns types of a classification. -/
  applies : Classification → Bool
  /-- The violations in a type. -/
  check : Subject → List Violation

namespace Rule

/-- The rule for all types in the category of its entry. -/
def ofCategory (entry : RuleEntry) (check : Subject → List Violation) : Rule :=
  { entry, applies := fun c => c.inCategory entry.category, check }

/-- The identifier of a rule. -/
def code (r : Rule) : String :=
  r.entry.code

/-- The name of a rule. -/
def name (r : Rule) : String :=
  r.entry.name

/-- Whether a suppression of the rule must be justified: errors are not waved through. -/
def needsReason (r : Rule) : Bool :=
  r.entry.severity == .error

end Rule

end TypeDoctrine
