import TypeDoctrine.Rules.Builder
import TypeDoctrine.Rules.Envelope
import TypeDoctrine.Rules.ErrorInfo
import TypeDoctrine.Rules.Immutability
import TypeDoctrine.Rules.RequiredProperties
import TypeDoctrine.Rules.Stateless
import TypeDoctrine.Rules.Success

/-!
# The catalogue of rules
-/

namespace TypeDoctrine

namespace Catalogue

open Rules

/-- The entries of all rules, by code. -/
def entries : List RuleEntry :=
  [sealedEntry, getOnlyEntry, hiddenConstructorsEntry, factoryEntry,
    successNotSettableEntry, resultSuccessEntry, envelopeSuccessEntry,
    RequiredProperties.resultEntry, RequiredProperties.envelopeEntry,
    RequiredProperties.headeredEnvelopeEntry, RequiredProperties.streamableEnvelopeEntry,
    RequiredProperties.codeEntry, RequiredProperties.errorInfoEntry,
    RequiredProperties.validationContextEntry,
    privateValueEntry, innerErrorsEntry, completeErrorEntry,
    successfulNotSettableEntry, successfulComputedEntry,
    mustBuildEntry, chainEntry, statelessEntry]

/-- The entry that a key names: a code in any case, or an exact name. -/
def find? (key : String) : Option RuleEntry :=
  entries.find? (·.isNamedBy key)

/-- Whether a key is the exact code or the exact name of a rule. Sections of a configuration are looked up
by these. -/
def hasKey (key : String) : Bool :=
  entries.any fun e => e.code == key || e.name == key

end Catalogue

end TypeDoctrine
