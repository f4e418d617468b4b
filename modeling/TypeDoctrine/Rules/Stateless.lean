import TypeDoctrine.Rule

/-!
# Stateless components

Handlers and policies are shared between calls, so their instances hold nothing that changes.
-/

namespace TypeDoctrine.Rules

/-- Entry of the rule on fields of handlers and policies. -/
def statelessEntry : RuleEntry where
  code := "ZNT5001"
  name := "handlers-must-be-stateless"
  category := .statelessComponent
  severity := .error
  title := "Handlers and policies must be stateless"
  messageFormat :=
    "Type '\x7B0\x7D' contains a mutable, non-injected, non-const instance field '\x7B1\x7D', which violates statelessness"
  description :=
    "Handlers and policies are shared across calls. Dependencies are injected into readonly fields; " ++
      "anything else is const or static."

/-- Handlers and policies have no mutable field. -/
def mustBeStateless : Rule :=
  .ofCategory statelessEntry fun s =>
    (s.type.fields.filter Field.isMutable).map fun f =>
      statelessEntry.violation f.location [s.type.name, f.name]

end TypeDoctrine.Rules
