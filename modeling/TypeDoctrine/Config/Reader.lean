import TypeDoctrine.Config
import TypeDoctrine.Toml.Document

/-!
# Reading configurations

Unknown keys are skipped, except in the section of a rule, where they are its options. A record may also
be an array of its fields in order, where more items are skipped.
-/

namespace TypeDoctrine

namespace Toml.Value

/-- The key under which a moment stands when it is read as a table. -/
def momentKey : String := "$__toml_private_datetime"

/-- The entries of a table. A moment counts as a table that holds its text. -/
def entries? : Value → Option (List (String × Value))
  | .table entries => some entries
  | .moment m => some [(momentKey, .string m.text)]
  | _ => none

/-- A string. -/
def string? : Value → Option String
  | .string s => some s
  | _ => none

/-- A boolean. -/
def boolean? : Value → Option Bool
  | .boolean b => some b
  | _ => none

/-- An integer that is not negative. -/
def natural? : Value → Option Nat
  | .integer (.ofNat n) => some n
  | _ => none

/-- One of several named values: its name, or a table with its name as the one key and nothing in it. -/
def tag? (ofName? : String → Option α) : Value → Option α
  | .string name => ofName? name
  | .table [(name, .table [])] | .table [(name, .array [])] => ofName? name
  | _ => none

/-- The items of an array, each read by `read`. -/
def listOf? (read : Value → Option α) : Value → Option (List α)
  | .array items => items.mapM read
  | _ => none

end Toml.Value

namespace Toml

/-- The moment that a table with these entries stands for. -/
def momentOf? : List (String × Value) → Option Moment
  | [(_, .string text)] => Moment.ofText? text
  | _ => none

mutual

/-- The value of an option. A table that begins with `momentKey` stands for the moment whose text it holds,
and holds nothing else. -/
def Value.settled? : Value → Option Value
  | .table entries =>
    if entries.head?.any (·.1 == Value.momentKey) then (momentOf? entries).map .moment
    else (settledEntries? entries).map .table
  | .array items => (settledItems? items).map .array
  | v => some v

/-- `Value.settled?` of every item. -/
def settledItems? : List Value → Option (List Value)
  | [] => some []
  | v :: rest =>
    match v.settled?, settledItems? rest with
    | some v, some rest => some (v :: rest)
    | _, _ => none

/-- `Value.settled?` of what stands under every key. -/
def settledEntries? : List (String × Value) → Option (List (String × Value))
  | [] => some []
  | (key, v) :: rest =>
    match v.settled?, settledEntries? rest with
    | some v, some rest => some ((key, v) :: rest)
    | _, _ => none

end

end Toml

namespace Config

open Toml (Value)

/-- Reads what stands under a key, if anything does. -/
def optional? (entries : List (String × Value)) (key : String) (read : Value → Option α) : Option (Option α) :=
  match entries.lookup key with
  | some v => (read v).map some
  | none => some none

/-- The fields of a record: the entries of a table, or the items of an array in the order of the names. -/
def record? (names : List String) : Value → Option (List (String × Value))
  | .array items => some (names.zip items)
  | v => v.entries?

/-- Reads the settings of the analyzer: how many types it examines at a time. -/
def parallelism? (v : Value) : Option (Option Nat) := do
  let fields ← record? ["parallelism"] v
  optional? fields "parallelism" Value.natural?

/-- Reads a marker. -/
def marker? (v : Value) : Option Marker := do
  let fields ← record? ["name", "arity", "capabilities"] v
  let name ← (fields.lookup "name").bind Value.string?
  let arity ← optional? fields "arity" Value.natural?
  let capabilities ← (fields.lookup "capabilities").bind (Value.listOf? (Value.tag? Capability.ofName?))
  return { name, arity, capabilities }

/-- Reads the section of a rule. -/
def section? (v : Value) : Option RuleSection := do
  let entries ← v.entries?
  let enabled ← optional? entries "enabled" Value.boolean?
  let severity ← optional? entries "severity" (Value.tag? Severity.ofName?)
  let options ← Toml.settledEntries? (entries.filter fun e => !(e.1 == "enabled" || e.1 == "severity"))
  return { enabled, severity, options }

/-- Reads the sections of rules. -/
def sections? (v : Value) : Option (List (String × RuleSection)) := do
  let entries ← v.entries?
  entries.mapM fun e => (section? e.2).map fun s => (e.1, s)

/-- Reads a configuration from the entries of a document. -/
def ofEntries? (entries : List (String × Value)) : Option Config := do
  let preset ← optional? entries "preset" Value.string?
  let failOn ← optional? entries "fail_on" Value.string?
  let parallelism ← optional? entries "analyzer" parallelism?
  let capabilities ← optional? entries "capabilities" (Value.listOf? marker?)
  let rules ← optional? entries "rules" sections?
  return {
    preset, failOn
    parallelism := parallelism.join
    capabilities := capabilities.getD []
    rules := rules.getD [] }

/-- Reads a configuration. -/
def parse (text : String) : Except ConfigError Config :=
  match (Toml.parse? text).bind ofEntries? with
  | some c => .ok c
  | none => .error .malformed

end Config

namespace RuleSection

open Toml (Value)

/-- A text: a string, or the text of a moment. -/
def text? : Value → Option String
  | .string s => some s
  | .moment m => some m.text
  | _ => none

/-- An integer. -/
def integer? : Value → Option Int
  | .integer n => some n
  | _ => none

/-- An option, read by `read`. -/
def option? (s : RuleSection) (key : String) (read : Value → Option α) : Option α :=
  (s.options.lookup key).bind read

end RuleSection

end TypeDoctrine
