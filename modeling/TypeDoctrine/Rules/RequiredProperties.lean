import TypeDoctrine.Rule

/-!
# Required properties

Each kind of contract has properties that outside code must be able to read. A table lists them for one
capability; more names can be required, and types with a second capability need `Value` too.
-/

namespace TypeDoctrine

/-- The properties that types of a capability need. -/
structure RequiredProperties where
  entry : RuleEntry
  capability : Capability
  required : List String
  /-- The capability that makes `Value` required. -/
  valueCapability : Option Capability := none

namespace RequiredProperties

/-- The option by which a configuration requires more properties. -/
def additionalProperties : String := "additional-properties"

/-- Entry of the rule on results. -/
def resultEntry : RuleEntry where
  code := "ZNT1003A"
  name := "result-required-properties"
  category := .resultContract
  severity := .error
  title := "Result types must expose the required properties"
  messageFormat := "Type '\x7B0\x7D' implements IResult but is missing a readable '\x7B1\x7D' property"
  description := "Results expose readable Messages and Errors, and Value when generic."

/-- The properties of results. -/
def result : RequiredProperties where
  entry := resultEntry
  capability := .result
  required := ["Messages", "Errors"]
  valueCapability := some .resultOfValue

/-- Entry of the rule on envelopes. -/
def envelopeEntry : RuleEntry where
  code := "ZNT1003B"
  name := "envelope-required-properties"
  category := .envelopeContract
  severity := .error
  title := "Envelope types must expose the required properties"
  messageFormat := "Type '\x7B0\x7D' implements IEnvelope but is missing a readable '\x7B1\x7D' property"
  description := "Envelopes expose readable Messages, Errors and Code, and Value when they carry one."

/-- The properties of envelopes. -/
def envelope : RequiredProperties where
  entry := envelopeEntry
  capability := .envelope
  required := ["Messages", "Errors", "Code"]
  valueCapability := some .envelopeOfValue

/-- Entry of the rule on headered envelopes. -/
def headeredEnvelopeEntry : RuleEntry where
  code := "ZNT1003C"
  name := "headered-envelope-required-properties"
  category := .envelopeContract
  severity := .error
  title := "Headered envelopes must expose Headers"
  messageFormat :=
    "Type '\x7B0\x7D' implements IHeaderedEnvelope but is missing a readable '\x7B1\x7D' property"
  description := "Headered envelopes expose their transport headers."

/-- The properties of headered envelopes. -/
def headeredEnvelope : RequiredProperties where
  entry := headeredEnvelopeEntry
  capability := .headeredEnvelope
  required := ["Headers"]

/-- Entry of the rule on streamable envelopes. -/
def streamableEnvelopeEntry : RuleEntry where
  code := "ZNT1003D"
  name := "streamable-envelope-required-properties"
  category := .envelopeContract
  severity := .error
  title := "Streamable envelopes must expose Stream"
  messageFormat :=
    "Type '\x7B0\x7D' implements IStreamableEnvelope but is missing a readable '\x7B1\x7D' property"
  description := "Streamable envelopes expose their payload stream."

/-- The properties of streamable envelopes. -/
def streamableEnvelope : RequiredProperties where
  entry := streamableEnvelopeEntry
  capability := .streamableEnvelope
  required := ["Stream"]

/-- Entry of the rule on codes. -/
def codeEntry : RuleEntry where
  code := "ZNT1003E"
  name := "code-required-properties"
  category := .immutableContract
  severity := .error
  title := "Codes must expose their definition"
  messageFormat := "Type '\x7B0\x7D' implements ICode but is missing a readable '\x7B1\x7D' property"
  description := "Every code carries the definition it was created from."

/-- The properties of codes. -/
def code : RequiredProperties where
  entry := codeEntry
  capability := .code
  required := ["Definition"]

/-- Entry of the rule on error infos. -/
def errorInfoEntry : RuleEntry where
  code := "ZNT1003F"
  name := "error-info-required-properties"
  category := .errorContract
  severity := .error
  title := "Error info types must expose the required properties"
  messageFormat := "Type '\x7B0\x7D' implements IErrorInfo but is missing a readable '\x7B1\x7D' property"
  description := "Error info exposes ErrorDefinition, Code, Message and InstanceId."

/-- The properties of error infos. -/
def errorInfo : RequiredProperties where
  entry := errorInfoEntry
  capability := .errorInfo
  required := ["ErrorDefinition", "Code", "Message", "InstanceId"]

/-- Entry of the rule on validation contexts. -/
def validationContextEntry : RuleEntry where
  code := "ZNT1003G"
  name := "validation-context-required-properties"
  category := .validationContract
  severity := .error
  title := "Validation contexts must expose their definition"
  messageFormat :=
    "Type '\x7B0\x7D' implements IValidationContext but is missing a readable '\x7B1\x7D' property"
  description := "Every validation context carries the definition it validates against."

/-- The properties of validation contexts. -/
def validationContext : RequiredProperties where
  entry := validationContextEntry
  capability := .validationContext
  required := ["Definition"]

/-- All tables, by code. -/
def all : List RequiredProperties :=
  [result, envelope, headeredEnvelope, streamableEnvelope, code, errorInfo, validationContext]

/-- Requires one more property, unless it is required already. -/
def require (r : RequiredProperties) (name : String) : RequiredProperties :=
  if r.required.contains name then r else { r with required := r.required ++ [name] }

/-- Requires more properties, one after the other. -/
def requireAll (r : RequiredProperties) (names : List String) : RequiredProperties :=
  names.foldl require r

/-- The names required of a type: the table's, then `Value` if the type carries a value. -/
def namesFor (r : RequiredProperties) (s : Subject) : List String :=
  r.required ++ if r.valueCapability.any s.has then ["Value"] else []

/-- Whether outside code can read a property of this name. -/
def isReadableIn (s : Subject) (name : String) : Bool :=
  (s.property? name).any Property.isReadable

/-- The required names that outside code cannot read. -/
def missing (r : RequiredProperties) (s : Subject) : List String :=
  (r.namesFor s).filter fun name => !isReadableIn s name

/-- The rule that types of the capability have the properties. -/
def toRule (r : RequiredProperties) : Rule where
  entry := r.entry
  applies c := c.has r.capability
  check s := (r.missing s).map fun name => s.atType r.entry [s.type.name, name]

end RequiredProperties

end TypeDoctrine
