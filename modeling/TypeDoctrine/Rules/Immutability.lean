import TypeDoctrine.Rule

/-!
# Immutability rules

Data contracts never change once they are created: their concrete types are sealed, no property can be
set from outside, and no constructor can be called from outside. Validation contexts have no builder, so
they must offer a static factory.
-/

namespace TypeDoctrine.Rules

/-- Entry of the rule that concrete contract types are sealed. -/
def sealedEntry : RuleEntry where
  code := "ZNT1001A"
  name := "concrete-type-must-be-sealed"
  category := .immutableContract
  severity := .error
  title := "Concrete immutable type must be sealed"
  messageFormat :=
    "Concrete type '\x7B0\x7D' implementing a core immutable abstraction must be declared 'sealed'"
  description :=
    "Concrete implementations of immutable contracts are sealed so that no subclass can add mutable " ++
      "state or bypass the designated builders and factories."

/-- Concrete contract types are sealed. -/
def mustBeSealed : Rule :=
  .ofCategory sealedEntry fun s =>
    if s.type.isSealed then [] else [s.atType sealedEntry [s.type.name]]

/-- Entry of the rule that properties are only read. -/
def getOnlyEntry : RuleEntry where
  code := "ZNT1001B"
  name := "properties-must-be-get-only"
  category := .immutableContract
  severity := .error
  title := "Properties must be get-only"
  messageFormat := "Property '\x7B0\x7D' on type '\x7B1\x7D' must be get-only"
  description := "A setter visible outside the type lets callers alter an instance after creation."

/-- No property has a visible setter. -/
def mustBeGetOnly : Rule :=
  .ofCategory getOnlyEntry fun s =>
    (s.type.properties.filter Property.hasVisibleSetter).map fun p =>
      getOnlyEntry.violation p.location [p.name, s.type.name]

/-- Entry of the rule that constructors are hidden. -/
def hiddenConstructorsEntry : RuleEntry where
  code := "ZNT1001C"
  name := "no-public-constructors"
  category := .immutableContract
  severity := .error
  title := "Use a builder or factory instead of a public constructor"
  messageFormat := "Type '\x7B0\x7D' must not contain a public or internal constructor"
  description := "Immutable types are created through builders or static factory methods only."

/-- No constructor is visible. -/
def mustHideConstructors : Rule :=
  .ofCategory hiddenConstructorsEntry fun s =>
    (s.type.constructors.filter fun c => c.access.isVisible).map fun c =>
      hiddenConstructorsEntry.violation c.location [s.type.name]

/-- Entry of the rule that validation contexts have a static factory. -/
def factoryEntry : RuleEntry where
  code := "ZNT1001D"
  name := "must-have-static-factory-methods"
  category := .validationContract
  severity := .error
  title := "Type must provide static factory methods"
  messageFormat :=
    "Type '\x7B0\x7D' must provide static factory methods for creation instead of public constructors"
  description :=
    "Types without a dedicated builder are created through a public or internal static method " ++
      "returning the type itself or another validation context."

/-- A visible static method that returns the type itself or a validation context. -/
def isFactory (s : Subject) (m : Method) : Bool :=
  m.isStatic && m.access.isVisible &&
    (s.type.isNamedBy m.returnType || s.registry.refHas m.returnType .validationContext)

/-- Validation contexts have a static factory. -/
def mustHaveFactory : Rule :=
  .ofCategory factoryEntry fun s =>
    if s.type.methods.any (isFactory s) then [] else [s.atType factoryEntry [s.type.name]]

end TypeDoctrine.Rules
