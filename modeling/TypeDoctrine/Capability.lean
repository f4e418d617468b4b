/-!
# Capabilities and categories

A type is held to a doctrine because of the interfaces it implements. Each such interface gives it
capabilities, and each capability puts it into categories, by which most rules choose their types.
-/

namespace TypeDoctrine

/-- A family of rules. -/
inductive Category where
  | immutableContract
  | resultContract
  | envelopeContract
  | errorContract
  | validationContract
  | metadataContract
  | builderContract
  | statelessComponent
deriving DecidableEq, Repr, Inhabited

namespace Category

/-- All categories, in order. -/
def all : List Category :=
  [.immutableContract, .resultContract, .envelopeContract, .errorContract, .validationContract,
    .metadataContract, .builderContract, .statelessComponent]

/-- The name of a category. -/
def name : Category → String
  | .immutableContract => "immutable-contract"
  | .resultContract => "result-contract"
  | .envelopeContract => "envelope-contract"
  | .errorContract => "error-contract"
  | .validationContract => "validation-contract"
  | .metadataContract => "metadata-contract"
  | .builderContract => "builder-contract"
  | .statelessComponent => "stateless-component"

/-- The category with this exact name. -/
def ofName? (s : String) : Option Category :=
  all.find? (·.name == s)

end Category

/-- What a type is, as told by an interface it implements. -/
inductive Capability where
  | result
  | resultOfValue
  | envelope
  | envelopeOfValue
  | headeredEnvelope
  | streamableEnvelope
  | metadata
  | errorInfo
  | code
  | validationContext
  | errorInfoBuilder
  | metadataBuilder
  | envelopeBuilder
  | handler
  | policy
deriving DecidableEq, Repr, Inhabited

namespace Capability

/-- All capabilities, in order. -/
def all : List Capability :=
  [.result, .resultOfValue, .envelope, .envelopeOfValue, .headeredEnvelope, .streamableEnvelope,
    .metadata, .errorInfo, .code, .validationContext, .errorInfoBuilder, .metadataBuilder,
    .envelopeBuilder, .handler, .policy]

/-- The name of a capability in configurations. -/
def name : Capability → String
  | .result => "result"
  | .resultOfValue => "result-of-value"
  | .envelope => "envelope"
  | .envelopeOfValue => "envelope-of-value"
  | .headeredEnvelope => "headered-envelope"
  | .streamableEnvelope => "streamable-envelope"
  | .metadata => "metadata"
  | .errorInfo => "error-info"
  | .code => "code"
  | .validationContext => "validation-context"
  | .errorInfoBuilder => "error-info-builder"
  | .metadataBuilder => "metadata-builder"
  | .envelopeBuilder => "envelope-builder"
  | .handler => "handler"
  | .policy => "policy"

/-- The capability with this exact name. -/
def ofName? (s : String) : Option Capability :=
  all.find? (·.name == s)

/-- The interface that gives a capability, as people write it. -/
def interfaceName : Capability → String
  | .result => "IResult"
  | .resultOfValue => "IResult<T>"
  | .envelope => "IEnvelope"
  | .envelopeOfValue => "IEnvelope<T>"
  | .headeredEnvelope => "IHeaderedEnvelope"
  | .streamableEnvelope => "IStreamableEnvelope"
  | .metadata => "IMetadata"
  | .errorInfo => "IErrorInfo"
  | .code => "ICode"
  | .validationContext => "IValidationContext"
  | .errorInfoBuilder => "IErrorInfoBuilder"
  | .metadataBuilder => "IMetadataBuilder"
  | .envelopeBuilder => "IEnvelopeBuilder"
  | .handler => "IHandler"
  | .policy => "IPolicy"

/-- The categories that a capability puts a type into. -/
def categories : Capability → List Category
  | .result | .resultOfValue => [.immutableContract, .resultContract]
  | .envelope | .envelopeOfValue | .headeredEnvelope | .streamableEnvelope =>
    [.immutableContract, .envelopeContract]
  | .metadata => [.immutableContract, .metadataContract]
  | .errorInfo => [.immutableContract, .errorContract]
  | .code => [.immutableContract]
  | .validationContext => [.immutableContract, .validationContract]
  | .errorInfoBuilder => [.errorContract, .builderContract]
  | .metadataBuilder => [.metadataContract, .builderContract]
  | .envelopeBuilder => [.builderContract]
  | .handler | .policy => [.statelessComponent]

end Capability

end TypeDoctrine
