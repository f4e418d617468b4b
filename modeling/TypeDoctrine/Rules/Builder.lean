import TypeDoctrine.Rule

/-!
# Builders

A metadata builder ends in `Build()`, and every other public method of a builder returns a builder, so
that calls can be chained.
-/

namespace TypeDoctrine.Rules

/-- The method that ends a builder. -/
def build : String := "Build"

/-- Entry of the rule that metadata builders build. -/
def mustBuildEntry : RuleEntry where
  code := "ZNT1007"
  name := "metadata-builder-must-build"
  category := .metadataContract
  severity := .error
  title := "Metadata builders must expose Build()"
  messageFormat := "Metadata builder '\x7B0\x7D' must expose a public, parameterless 'Build()' method"
  description := "Every metadata builder terminates in a public instance Build() method."

/-- A public method `Build()` of the instance. -/
def canBuild (m : Method) : Bool :=
  m.name == build && !m.isStatic && m.parameterCount == 0 && m.access == .anyone

/-- Metadata builders have a public method `Build()`. -/
def mustBuild : Rule where
  entry := mustBuildEntry
  applies c := c.has .metadataBuilder
  check s := if s.type.methods.any canBuild then [] else [s.atType mustBuildEntry [s.type.name]]

/-- Entry of the rule that builder methods chain. -/
def chainEntry : RuleEntry where
  code := "ZNT3002"
  name := "builder-methods-return-builder"
  category := .builderContract
  severity := .error
  title := "Builder methods must return the builder instance"
  messageFormat :=
    "Method '\x7B0\x7D' on a builder type does not return a builder instance, which breaks fluent chaining"
  description :=
    "Every public instance method of a builder other than Build() returns the builder itself or a " ++
      "builder interface so that calls can be chained."

/-- The capabilities of builders. -/
def builderCapabilities : List Capability :=
  [.errorInfoBuilder, .metadataBuilder, .envelopeBuilder]

/-- Whether a method returns the type itself or a builder. -/
def chains (s : Subject) (m : Method) : Bool :=
  s.type.isNamedBy m.returnType || builderCapabilities.any (s.registry.refHas m.returnType)

/-- Whether a method has to chain: it is public, of the instance, and not `Build`. -/
def mustChain (m : Method) : Bool :=
  m.access == .anyone && !m.isStatic && m.name != build

/-- The public methods of a builder return a builder. -/
def methodsChain : Rule :=
  .ofCategory chainEntry fun s =>
    (s.type.methods.filter fun m => mustChain m && !chains s m).map fun m =>
      chainEntry.violation m.location [m.name]

end TypeDoctrine.Rules
