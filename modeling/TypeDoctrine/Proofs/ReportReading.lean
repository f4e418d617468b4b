import TypeDoctrine.Codec.Report
import TypeDoctrine.Proofs.DeclarationSpelling
import TypeDoctrine.Proofs.Json.RoundTrip

/-!
# Reading a report back

`Report.parse?_render_json`: the text of a report in JSON is read back as the report. The text gives the
values that were written, since all of them are `Exact`, and the readers of the records give the report.

A violation is written without its arguments and its suggestion if it has none. That is a spelling of the form
with all fields, so that it is read like any other spelling.
-/

namespace TypeDoctrine

open Json

/-! ## What is written has a text of its own -/

namespace Json

theorem exact_ofCount (n : UInt64) : Exact (ofCount n) := by
  refine .integer ?_
  rw [Int.natAbs_natCast]
  exact n.toNat_lt

theorem exact_ofList {α : Type} {write : α → Json} (h : ∀ x, Exact (write x)) (xs : List α) :
    Exact (ofList write xs) := by
  refine .array ?_
  intro j hj
  obtain ⟨x, -, rfl⟩ := List.mem_map.1 hj
  exact h x

theorem exact_ofStrings (ss : List String) : Exact (ofStrings ss) :=
  exact_ofList .string ss

end Json

theorem Location.exact_toJson (l : Location) : Exact l.toJson := by
  refine .object ?_
  simp only [List.forall_mem_cons, exact_ofCount, Exact.string, true_and]
  exact List.forall_mem_nil _

namespace Violation

theorem exact_suggestionToJson (text : String) : Exact (suggestionToJson text) := by
  refine .object ?_
  exact List.forall_mem_singleton.2 (.string text)

theorem exact_toJson (v : Violation) : Exact v.toJson := by
  refine .object ?_
  rw [List.forall_mem_append, List.forall_mem_append]
  refine ⟨⟨?_, ?_⟩, ?_⟩
  · simp only [List.forall_mem_cons, Severity.toJson, Exact.string, v.location.exact_toJson, true_and]
    exact List.forall_mem_nil _
  · split
    · exact List.forall_mem_nil _
    · exact List.forall_mem_singleton.2 (exact_ofStrings v.arguments)
  · split
    · next text _ => exact List.forall_mem_singleton.2 (exact_suggestionToJson text)
    · exact List.forall_mem_nil _

end Violation

theorem Report.exact_toJson (r : Report) : Exact r.toJson := by
  refine .object ?_
  simp only [List.forall_mem_cons, exact_ofCount, exact_ofList Violation.exact_toJson, true_and]
  exact List.forall_mem_nil _

/-! ## What is written is read back -/

theorem Severity.readsBack : ReadsBack toJson Eq ofJson? :=
  readsBack_tag fun s => by cases s <;> decide

namespace Violation

/-- A violation with all its fields. -/
def fullJson (v : Violation) : Json :=
  .object [("code", .string v.code), ("rule", .string v.rule), ("severity", v.severity.toJson),
    ("location", v.location.toJson), ("message", .string v.message), ("arguments", ofStrings v.arguments),
    ("suggestion", ofOption suggestionToJson v.suggestion)]

def RespellsSuggestion : Json → Json → Prop :=
  RespellsRecord [{ name := "message" }]

theorem readsBack_suggestion : ReadsBack suggestionToJson RespellsSuggestion suggestionOfJson? := by
  refine .record (by decide) ?_ ?_
  · intro text
    simp only [List.forall₂_cons, List.Forall₂.nil, and_self]
  · intro text f h
    simp only [List.forall₂_cons, List.Forall₂.nil, and_true] at h
    exact readsBack_string.required? h

def Respells : Json → Json → Prop :=
  RespellsRecord [{ name := "code" }, { name := "rule" }, { name := "severity" },
    { name := "location", respells := Location.Respells }, { name := "message" },
    { name := "arguments", default := some (ofStrings []) },
    { name := "suggestion", default := some .null, respells := RespellsNullable RespellsSuggestion }]

theorem readsBack_fullJson : ReadsBack fullJson Respells ofJson? := by
  have suggestion := readsBack_suggestion.nullable rfl
  refine .record (by decide) ?_ ?_
  · intro v
    simp only [List.forall₂_cons, List.Forall₂.nil, and_self, Location.readsBack.refl, suggestion.refl]
  · intro v f h
    simp only [List.forall₂_cons, List.Forall₂.nil, and_true] at h
    obtain ⟨hcode, hrule, hseverity, hlocation, hmessage, harguments, hsuggestion⟩ := h
    rw [readsBack_string.required? hcode, readsBack_string.required? hrule, Severity.readsBack.required? hseverity,
      Location.readsBack.required? hlocation, readsBack_string.required? hmessage,
      readsBack_strings.optional? [] harguments, suggestion.optional? none hsuggestion]
    rfl

/-- What is left out is what may be. -/
theorem respells_toJson (v : Violation) : Respells v.fullJson v.toJson := by
  let suggestion : FieldForm :=
    { name := "suggestion", default := some .null, respells := RespellsNullable RespellsSuggestion }
  have hnone : Rewrites [suggestion] [("suggestion", .null)] [] := .drop rfl .nil
  have hsome (text : String) :
      Rewrites [suggestion] [("suggestion", suggestionToJson text)] [("suggestion", suggestionToJson text)] :=
    .keep (.inr ⟨Json.noConfusion, readsBack_suggestion.refl text⟩) .nil
  refine Rewrites.respellsRecord
    (.keep rfl (.keep rfl (.keep rfl (.keep (Location.readsBack.refl v.location) (.keep rfl ?_)))))
  cases v.suggestion with
  | none =>
    cases v.arguments with
    | nil => exact .drop rfl hnone
    | cons a as => exact .keep rfl hnone
  | some text =>
    cases v.arguments with
    | nil => exact .drop rfl (hsome text)
    | cons a as => exact .keep rfl (hsome text)

theorem readsBack : ReadsBack toJson Eq ofJson? :=
  .ofEq fun v => readsBack_fullJson.reads v v.toJson (respells_toJson v)

/-- A form of the violation has its arguments and its suggestion exactly if there are any. -/
def LeavesOut (v : Violation) (form : Json) : Prop :=
  ∃ members, form = .object members ∧ ("arguments" ∈ members.map (·.1) ↔ v.arguments ≠ []) ∧
    ("suggestion" ∈ members.map (·.1) ↔ v.suggestion ≠ none)

theorem leavesOut_toJson (v : Violation) : v.LeavesOut v.toJson := by
  refine ⟨_, rfl, ?_, ?_⟩
  · cases v.arguments <;> cases v.suggestion <;> simp
  · cases v.arguments <;> cases v.suggestion <;> simp

end Violation

namespace Report

def Respells : Json → Json → Prop :=
  RespellsRecord [{ name := "violations", respells := RespellsList Eq }, { name := "types_checked" }]

theorem readsBack : ReadsBack toJson Respells ofJson? := by
  have violations := Violation.readsBack.list
  refine .record (by decide) ?_ ?_
  · intro r
    simp only [List.forall₂_cons, List.Forall₂.nil, and_self, violations.refl]
  · intro r f h
    simp only [List.forall₂_cons, List.Forall₂.nil, and_true] at h
    obtain ⟨hviolations, hchecked⟩ := h
    rw [violations.required? hviolations, readsBack_count.required? hchecked]
    rfl

/-- The text of a report in JSON is read back as the report, though it has no arguments and no suggestion of a
violation that has none. -/
theorem parse?_render_json (r : Report) :
    parse? (r.render .json) = some r ∧
      ∃ forms, Json.parse? (r.render .json) =
          some (.object [("violations", .array forms), ("types_checked", ofCount r.typesChecked)]) ∧
        List.Forall₂ Violation.LeavesOut r.violations forms := by
  have hparse : Json.parse? (r.render .json) = some r.toJson := parse?_pretty r.exact_toJson
  constructor
  · unfold parse?
    rw [hparse, Option.bind_some, readsBack.read_write]
  · refine ⟨r.violations.map Violation.toJson, hparse, ?_⟩
    rw [List.forall₂_map_right_iff, List.forall₂_same]
    intro v _
    exact v.leavesOut_toJson

end Report

end TypeDoctrine
