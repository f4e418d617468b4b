import TypeDoctrine.Rule

/-!
# Success flags

`IsSuccess` of a result or envelope, and `IsSuccessful` of a validation context, say again what other
members say already. They must be computed from them and never be assigned. A type without the flag
breaks no rule here.
-/

namespace TypeDoctrine.Rules

/-- The success flag of results and envelopes. -/
def isSuccess : String := "IsSuccess"

/-- The success flag of validation contexts. -/
def isSuccessful : String := "IsSuccessful"

/-- The violation of a flag that is present and fails a test, at the flag. -/
def flagViolations (entry : RuleEntry) (flag : String) (fails : Property → Bool) (s : Subject) :
    List Violation :=
  match s.property? flag with
  | some p => if fails p then [entry.violation p.location [s.type.name]] else []
  | none => []

/-- Whether a property's getter mentions one of some members. -/
def isDerivedFrom (p : Property) (sources : List String) : Bool :=
  p.getter.any fun g => sources.any g.body.mentions

/-- Entry of the rule that the flag of results and envelopes is not assigned. -/
def successNotSettableEntry : RuleEntry where
  code := "ZNT1002A"
  name := "is-success-not-settable"
  category := .resultContract
  severity := .error
  title := "IsSuccess must not be settable"
  messageFormat := "The IsSuccess property on type '\x7B0\x7D' must not have a setter"
  description := "IsSuccess reflects the state of the errors, it is never independent data."

/-- `IsSuccess` of a result or envelope has no visible setter. -/
def successNotSettable : Rule where
  entry := successNotSettableEntry
  applies c := c.hasAny [.result, .envelope]
  check := flagViolations successNotSettableEntry isSuccess Property.hasVisibleSetter

/-- Entry of the rule that the flag of results follows their errors. -/
def resultSuccessEntry : RuleEntry where
  code := "ZNT1002B"
  name := "is-success-derived-from-errors"
  category := .resultContract
  severity := .error
  title := "IsSuccess must be a derived, computed property"
  messageFormat := "The IsSuccess property on type '\x7B0\x7D' must be computed from the Errors collection"
  description := "A result is successful exactly when its Errors collection is empty."

/-- `IsSuccess` of a result is computed from `Errors`. -/
def resultSuccessDerived : Rule where
  entry := resultSuccessEntry
  applies c := c.has .result
  check := flagViolations resultSuccessEntry isSuccess fun p => !isDerivedFrom p ["Errors"]

/-- Entry of the rule that the flag of envelopes follows their errors or code. -/
def envelopeSuccessEntry : RuleEntry where
  code := "ZNT1002C"
  name := "is-success-derived-from-errors-or-code"
  category := .envelopeContract
  severity := .error
  title := "Envelope IsSuccess must be derived from Errors or Code"
  messageFormat := "The IsSuccess property on envelope type '\x7B0\x7D' must be computed from Errors or Code"
  description := "An envelope's success is derived from its errors or its outcome code."

/-- `IsSuccess` of an envelope is computed from `Errors` or `Code`. -/
def envelopeSuccessDerived : Rule where
  entry := envelopeSuccessEntry
  applies c := c.has .envelope
  check := flagViolations envelopeSuccessEntry isSuccess fun p => !isDerivedFrom p ["Errors", "Code"]

/-- Entry of the rule that the flag of validation contexts is not assigned. -/
def successfulNotSettableEntry : RuleEntry where
  code := "ZNT1006A"
  name := "is-successful-not-settable"
  category := .validationContract
  severity := .error
  title := "IsSuccessful must not be settable"
  messageFormat := "The IsSuccessful property on validation context '\x7B0\x7D' must not have a setter"
  description := "A validation outcome is derived from the context, never assigned."

/-- `IsSuccessful` of a validation context has no visible setter. -/
def successfulNotSettable : Rule :=
  .ofCategory successfulNotSettableEntry
    (flagViolations successfulNotSettableEntry isSuccessful Property.hasVisibleSetter)

/-- Entry of the rule that the flag of validation contexts has code. -/
def successfulComputedEntry : RuleEntry where
  code := "ZNT1006B"
  name := "is-successful-computed"
  category := .validationContract
  severity := .error
  title := "IsSuccessful must be a computed property"
  messageFormat :=
    "The IsSuccessful property on validation context '\x7B0\x7D' must be computed, not auto-implemented"
  description := "A validation outcome is derived from the context, never stored."

/-- `IsSuccessful` of a validation context is computed. -/
def successfulComputed : Rule :=
  .ofCategory successfulComputedEntry
    (flagViolations successfulComputedEntry isSuccessful fun p => !p.isComputed)

end TypeDoctrine.Rules
