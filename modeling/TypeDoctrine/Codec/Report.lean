import TypeDoctrine.Codec.Declaration
import TypeDoctrine.Json.Writer
import TypeDoctrine.Report

/-!
# Violations and reports in JSON

A violation leaves out its arguments if there are none, and its suggestion if it has none.
-/

namespace TypeDoctrine

open Json (ofCount ofList ofStrings)

namespace Severity

/-- Reads a severity. -/
def ofJson? : Json → Option Severity :=
  Json.tag? ofName?

/-- Writes a severity. -/
def toJson (s : Severity) : Json :=
  .string s.name

end Severity

namespace OutputFormat

/-- Reads a format. -/
def ofJson? : Json → Option OutputFormat :=
  Json.tag? ofName?

end OutputFormat

namespace Violation

/-- The fields of a violation. -/
def fieldNames : List String :=
  ["code", "rule", "severity", "location", "message", "arguments", "suggestion"]

/-- Reads a suggestion. -/
def suggestionOfJson? (j : Json) : Option String := do
  let f ← j.fields? ["message"]
  f.required? "message" Json.string?

/-- Writes a suggestion. -/
def suggestionToJson (text : String) : Json :=
  .object [("message", .string text)]

/-- Reads a violation. -/
def ofJson? (j : Json) : Option Violation := do
  let f ← j.fields? fieldNames
  let code ← f.required? "code" Json.string?
  let rule ← f.required? "rule" Json.string?
  let severity ← f.required? "severity" Severity.ofJson?
  let location ← f.required? "location" Location.ofJson?
  let message ← f.required? "message" Json.string?
  let arguments ← f.optional? "arguments" [] (Json.listOf? Json.string?)
  let suggestion ← f.optional? "suggestion" none (Json.nullable? suggestionOfJson?)
  return { code, rule, severity, location, message, arguments, suggestion }

/-- Writes a violation. -/
def toJson (v : Violation) : Json :=
  .object <|
    [("code", .string v.code), ("rule", .string v.rule), ("severity", v.severity.toJson),
      ("location", v.location.toJson), ("message", .string v.message)] ++
      (if v.arguments.isEmpty then [] else [("arguments", ofStrings v.arguments)]) ++
      match v.suggestion with
      | some text => [("suggestion", suggestionToJson text)]
      | none => []

end Violation

namespace Report

/-- Reads a report. -/
def ofJson? (j : Json) : Option Report := do
  let f ← j.fields? ["violations", "types_checked"]
  let violations ← f.required? "violations" (Json.listOf? Violation.ofJson?)
  let typesChecked ← f.required? "types_checked" Json.count?
  return { violations, typesChecked }

/-- Writes a report. -/
def toJson (r : Report) : Json :=
  .object [("violations", ofList Violation.toJson r.violations), ("types_checked", ofCount r.typesChecked)]

/-- Reads a document with a report. -/
def parse? (text : String) : Option Report :=
  (Json.parse? text).bind ofJson?

/-- A report in a format. -/
def render (r : Report) : OutputFormat → String
  | .text => r.text
  | .compact => r.lines
  | .json => r.toJson.pretty

end Report

end TypeDoctrine
