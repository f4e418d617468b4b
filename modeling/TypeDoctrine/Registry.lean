import TypeDoctrine.Capability
import TypeDoctrine.Declaration

/-!
# Markers and classification

A registry lists the marker interfaces and what capabilities each gives. An interface matches a marker
when their names are equal without type arguments and, if the marker fixes a number of type arguments,
that number is equal too.
-/

namespace TypeDoctrine

/-- A marker interface. -/
structure Marker where
  name : String
  /-- The number of type arguments it must have, if that is fixed. -/
  arity : Option Nat := none
  capabilities : List Capability
deriving DecidableEq, Repr

/-- Whether a marker matches a name. -/
def Marker.matches (m : Marker) (g : GenericName) : Bool :=
  m.name == g.base && m.arity.all (· == g.arity)

/-- The capabilities of a type, in order and without repetition. -/
structure Classification where
  capabilities : List Capability := []
deriving DecidableEq, Repr, Inhabited

namespace Classification

/-- Whether the type has no capability. -/
def isEmpty (c : Classification) : Bool :=
  c.capabilities.isEmpty

/-- Whether the type has a capability. -/
def has (c : Classification) (capability : Capability) : Bool :=
  c.capabilities.contains capability

/-- Whether the type has one of some capabilities. -/
def hasAny (c : Classification) (capabilities : List Capability) : Bool :=
  capabilities.any c.has

/-- The categories of the type, in order and without repetition. -/
def categories (c : Classification) : List Category :=
  Category.all.filter fun k => c.capabilities.any (·.categories.contains k)

/-- Whether the type is in a category. -/
def inCategory (c : Classification) (category : Category) : Bool :=
  c.categories.contains category

end Classification

/-- The marker interfaces that are known. -/
structure Registry where
  markers : List Marker := []
deriving DecidableEq, Repr, Inhabited

namespace Registry

/-- The registry without markers. -/
def empty : Registry :=
  {}

/-- The markers of the standard contracts. -/
def standard : Registry where
  markers :=
    [{ name := "Zentient.Abstractions.Results.IResult", arity := some 0, capabilities := [.result] },
      { name := "Zentient.Abstractions.Results.IResult", arity := some 1
        capabilities := [.result, .resultOfValue] },
      { name := "Zentient.Abstractions.Envelopes.IEnvelope", arity := some 2
        capabilities := [.envelope] },
      { name := "Zentient.Abstractions.Envelopes.IEnvelope", arity := some 3
        capabilities := [.envelope, .envelopeOfValue] },
      { name := "Zentient.Abstractions.Envelopes.IHeaderedEnvelope", arity := some 2
        capabilities := [.envelope, .headeredEnvelope] },
      { name := "Zentient.Abstractions.Envelopes.IHeaderedEnvelope", arity := some 3
        capabilities := [.envelope, .envelopeOfValue, .headeredEnvelope] },
      { name := "Zentient.Abstractions.Envelopes.IStreamableEnvelope", arity := some 2
        capabilities := [.envelope, .streamableEnvelope] },
      { name := "Zentient.Abstractions.Envelopes.IStreamableEnvelope", arity := some 3
        capabilities := [.envelope, .envelopeOfValue, .streamableEnvelope] },
      { name := "Zentient.Abstractions.Metadata.IMetadata", capabilities := [.metadata] },
      { name := "Zentient.Abstractions.Errors.IErrorInfo", capabilities := [.errorInfo] },
      { name := "Zentient.Abstractions.Codes.ICode", capabilities := [.code] },
      { name := "Zentient.Abstractions.Validation.IValidationContext"
        capabilities := [.validationContext] },
      { name := "Zentient.Abstractions.Errors.Builders.IErrorInfoBuilder"
        capabilities := [.errorInfoBuilder] },
      { name := "Zentient.Abstractions.Metadata.Builders.IMetadataBuilder"
        capabilities := [.metadataBuilder] },
      { name := "Zentient.Abstractions.Envelopes.Builders.IEnvelopeBuilder"
        capabilities := [.envelopeBuilder] },
      { name := "Zentient.Abstractions.Handlers.IHandler", capabilities := [.handler] },
      { name := "Zentient.Abstractions.Policies.IPolicy", capabilities := [.policy] }]

/-- A registry with more markers. -/
def withMarkers (r : Registry) (markers : List Marker) : Registry :=
  { r with markers := r.markers ++ markers }

/-- The capabilities that an interface gives, in order and without repetition. -/
def capabilitiesOf (r : Registry) (interface : String) : List Capability :=
  let g := GenericName.parse interface
  let granted := (r.markers.filter (·.matches g)).flatMap (·.capabilities)
  Capability.all.filter granted.contains

/-- The classification that interfaces give together. -/
def classifyInterfaces (r : Registry) (interfaces : List String) : Classification :=
  let granted := interfaces.flatMap r.capabilitiesOf
  { capabilities := Capability.all.filter granted.contains }

/-- The classification of a declared type. -/
def classify (r : Registry) (t : TypeDecl) : Classification :=
  r.classifyInterfaces t.interfaces

/-- Whether a referenced type has a capability, by its own name or by an interface of it. -/
def refHas (r : Registry) (ref : TypeRef) (capability : Capability) : Bool :=
  (ref.name :: ref.interfaces).any fun i => (r.capabilitiesOf i).contains capability

end Registry

end TypeDoctrine
