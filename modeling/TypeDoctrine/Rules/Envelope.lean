import TypeDoctrine.Rule

/-!
# The value of an envelope

An unsuccessful envelope carries no value. What a declaration can show of this is who may set the value:
nobody but the envelope itself.
-/

namespace TypeDoctrine.Rules

/-- The property that holds what an envelope carries. -/
def envelopeValue : String := "Value"

/-- Entry of the rule that only the envelope sets its value. -/
def privateValueEntry : RuleEntry where
  code := "ZNT1004"
  name := "envelope-value-only-on-success"
  category := .envelopeContract
  severity := .error
  title := "Envelope value must only exist on success"
  messageFormat :=
    "Property '\x7B0\x7D' on envelope type '\x7B1\x7D' must not be settable; a value only exists on success"
  description :=
    "An unsuccessful envelope carries no value. Keeping the setter private leaves the value under the " ++
      "control of the envelope's own factories."

/-- Whether code outside the type can set a property, code of derived types included. -/
def isSettableOutside (p : Property) : Bool :=
  p.setter.any (· != .owner)

/-- `Value` of an envelope that carries one has no setter, or a private one. -/
def valueIsPrivate : Rule where
  entry := privateValueEntry
  applies c := c.has .envelopeOfValue
  check s :=
    match s.property? envelopeValue with
    | some p =>
      if isSettableOutside p then [privateValueEntry.violation p.location [envelopeValue, s.type.name]] else []
    | none => []

end TypeDoctrine.Rules
