import TypeDoctrine.Proofs.Suppression
import TypeDoctrine.Proofs.TemplateReading
import TypeDoctrine.Proofs.Verdict

/-!
# The form of violations

Every violation that a preset reports stems from one of its rules, and is either a finding of that rule or the
reminder that an exemption from it lacks a reason (`violations_inForm`). A finding carries as many arguments as the
message of the rule has places, so no place of a message stays empty and no argument is dropped; it stands where the
type or one of its members is declared. Its message is the template of the rule with the arguments filled in: the
templates of the catalogue are written by segments (`Catalogue.entries_areWritten`), so a message is the texts and the
arguments of these segments in turn.

What a rule finds is said once for all rules (`Rule.FindsInForm`): the entry of the rule, a location of the type, and
arguments that fit.
-/

namespace TypeDoctrine

/-- Where the type and its members are declared. -/
def TypeDecl.locations (t : TypeDecl) : List Location :=
  t.location :: (t.properties.map (·.location) ++ t.constructors.map (·.location) ++ t.methods.map (·.location) ++
    t.fields.map (·.location))

namespace TypeDecl

variable {t : TypeDecl}

theorem location_mem_locations : t.location ∈ t.locations :=
  List.mem_cons_self

theorem property_mem_locations {p : Property} (h : p ∈ t.properties) : p.location ∈ t.locations := by
  have hp : p.location ∈ t.properties.map (·.location) := List.mem_map_of_mem h
  simp [locations, hp]

theorem constructor_mem_locations {c : Constructor} (h : c ∈ t.constructors) : c.location ∈ t.locations := by
  have hc : c.location ∈ t.constructors.map (·.location) := List.mem_map_of_mem h
  simp [locations, hc]

theorem method_mem_locations {m : Method} (h : m ∈ t.methods) : m.location ∈ t.locations := by
  have hm : m.location ∈ t.methods.map (·.location) := List.mem_map_of_mem h
  simp [locations, hm]

theorem field_mem_locations {f : Field} (h : f ∈ t.fields) : f.location ∈ t.locations := by
  have hf : f.location ∈ t.fields.map (·.location) := List.mem_map_of_mem h
  simp [locations, hf]

end TypeDecl

/-! ## Arguments that fit -/

namespace RuleEntry

/-- The arguments fill the places of the message: each place has its argument, and each argument has a place. -/
def Fits (e : RuleEntry) (args : List String) : Prop :=
  ∀ index, index ∈ Template.places e.messageFormat ↔ index < args.length

/-- The message template is what some segments write. -/
def IsWritten (e : RuleEntry) : Prop :=
  ∃ segments, e.messageFormat = Template.write segments

section Characters

variable {e : RuleEntry} {chars : List Char} (he : e.messageFormat = String.ofList chars)
include he

/-- Arguments fit if there are as many as places. -/
theorem fits_of_chars (n : Nat) (h : (Template.read chars).filterMap Template.Segment.index? = List.range n)
    {args : List String} (hn : args.length = n) : e.Fits args := by
  intro index
  rw [Template.places, he, String.toList_ofList, h, List.mem_range, hn]

theorem isWritten_of_chars (h : Template.isWritten chars = true) : e.IsWritten := by
  unfold IsWritten
  rw [he]
  exact Template.exists_write_of_isWritten h

end Characters

/-- A violation of the rule where the type or one of its members is declared, with arguments that fit. -/
def InForm (e : RuleEntry) (t : TypeDecl) (v : Violation) : Prop :=
  ∃ location ∈ t.locations, ∃ args, e.Fits args ∧ v = e.violation location args

end RuleEntry

/-! ## The findings of each rule -/

namespace Rule

/-- Whatever the rule finds in a type is in the form of its entry. -/
def FindsInForm (r : Rule) : Prop :=
  ∀ s : Subject, ∀ v ∈ r.check s, r.entry.InForm s.type v

end Rule

section Checks

variable {e : RuleEntry} {s : Subject} {v : Violation}

/-- A finding at the type itself, unless it passes a test. -/
theorem inForm_unless {passes : Bool} {args : List String} (h : e.Fits args)
    (hv : v ∈ if passes then [] else [s.atType e args]) : e.InForm s.type v := by
  split at hv
  · exact absurd hv List.not_mem_nil
  · rw [List.mem_singleton] at hv
    exact ⟨s.type.location, TypeDecl.location_mem_locations, args, h, hv⟩

/-- A finding at each member that fails a test. -/
theorem inForm_members {α : Type} {members : List α} {fails : α → Bool} {location : α → Location}
    {args : α → List String} (hl : ∀ m ∈ members, location m ∈ s.type.locations) (h : ∀ m, e.Fits (args m))
    (hv : v ∈ (members.filter fails).map fun m => e.violation (location m) (args m)) : e.InForm s.type v := by
  obtain ⟨m, hm, rfl⟩ := List.mem_map.1 hv
  exact ⟨location m, hl m (List.mem_filter.1 hm).1, args m, h m, rfl⟩

/-- A finding at a property that is present and fails a test. -/
theorem inForm_property {name : String} {fails : Property → Bool} {args : List String} (h : e.Fits args)
    (hv : v ∈ match s.property? name with
      | some p => if fails p then [e.violation p.location args] else []
      | none => []) : e.InForm s.type v := by
  split at hv
  · next p hp =>
    split at hv
    · rw [List.mem_singleton] at hv
      have hmem : p ∈ s.type.properties := List.mem_of_find?_eq_some hp
      exact ⟨p.location, TypeDecl.property_mem_locations hmem, args, h, hv⟩
    · exact absurd hv List.not_mem_nil
  · exact absurd hv List.not_mem_nil

end Checks

open Rules RuleEntry

theorem shapeRules_findInForm : ∀ r ∈ Preset.shapeRules, r.FindsInForm := by
  rw [forall_shapeRules]
  refine ⟨?_, ?_, ?_, ?_⟩
  · intro s v hv
    exact inForm_unless (fits_of_chars rfl 1 (by decide +kernel) rfl) hv
  · intro s v hv
    apply inForm_members _ _ hv
    · exact fun p hp => TypeDecl.property_mem_locations hp
    · exact fun p => fits_of_chars rfl 2 (by decide +kernel) rfl
  · intro s v hv
    apply inForm_members _ _ hv
    · exact fun c hc => TypeDecl.constructor_mem_locations hc
    · exact fun c => fits_of_chars rfl 1 (by decide +kernel) rfl
  · intro s v hv
    exact inForm_unless (fits_of_chars rfl 1 (by decide +kernel) rfl) hv

theorem successRules_findInForm : ∀ r ∈ Preset.successRules, r.FindsInForm := by
  rw [forall_successRules]
  refine ⟨?_, ?_, ?_⟩
  · intro s v hv
    exact inForm_property (fits_of_chars rfl 1 (by decide +kernel) rfl) hv
  · intro s v hv
    exact inForm_property (fits_of_chars rfl 1 (by decide +kernel) rfl) hv
  · intro s v hv
    exact inForm_property (fits_of_chars rfl 1 (by decide +kernel) rfl) hv

theorem memberRules_findInForm : ∀ r ∈ Preset.memberRules, r.FindsInForm := by
  rw [forall_memberRules]
  refine ⟨?_, ?_, ?_, ?_, ?_, ?_, ?_, ?_⟩
  · intro s v hv
    exact inForm_property (fits_of_chars rfl 2 (by decide +kernel) rfl) hv
  · intro s v hv
    exact inForm_property (fits_of_chars rfl 1 (by decide +kernel) rfl) hv
  · intro s v hv
    simp only [completeError] at hv
    cases hbody : buildBody? s.type with
    | some body =>
      rw [hbody] at hv
      exact inForm_unless (fits_of_chars rfl 2 (by decide +kernel) rfl) hv
    | none =>
      rw [hbody] at hv
      exact absurd hv List.not_mem_nil
  · intro s v hv
    exact inForm_property (fits_of_chars rfl 1 (by decide +kernel) rfl) hv
  · intro s v hv
    exact inForm_property (fits_of_chars rfl 1 (by decide +kernel) rfl) hv
  · intro s v hv
    exact inForm_unless (fits_of_chars rfl 1 (by decide +kernel) rfl) hv
  · intro s v hv
    apply inForm_members _ _ hv
    · exact fun m hm => TypeDecl.method_mem_locations hm
    · exact fun m => fits_of_chars rfl 1 (by decide +kernel) rfl
  · intro s v hv
    apply inForm_members _ _ hv
    · exact fun f hf => TypeDecl.field_mem_locations hf
    · exact fun f => fits_of_chars rfl 2 (by decide +kernel) rfl

namespace RequiredProperties

/-- The message of every table names the type and the property that it misses. -/
theorem fits_entry {q : RequiredProperties} (hq : q ∈ all) (type name : String) : q.entry.Fits [type, name] := by
  simp only [all, List.mem_cons, List.not_mem_nil, or_false] at hq
  rcases hq with rfl | rfl | rfl | rfl | rfl | rfl | rfl <;> exact fits_of_chars rfl 2 (by decide +kernel) rfl

theorem toRule_findsInForm {q : RequiredProperties} (hq : q ∈ all) (names : List String) :
    (q.requireAll names).toRule.FindsInForm := by
  intro s v hv
  obtain ⟨name, -, rfl⟩ := List.mem_map.1 hv
  have hentry : (q.requireAll names).toRule.entry = q.entry := q.requireAll_entry names
  rw [hentry, requireAll_entry]
  exact ⟨s.type.location, TypeDecl.location_mem_locations, _, fits_entry hq s.type.name name, rfl⟩

end RequiredProperties

theorem Preset.rules_findInForm (p : Preset) (config : Config) : ∀ r ∈ p.rules config, r.FindsInForm := by
  apply Preset.forall_rules shapeRules_findInForm successRules_findInForm _ memberRules_findInForm
  intro q hq names
  exact RequiredProperties.toRule_findsInForm hq names

/-- Every message template of the catalogue is written by segments: none of its braces stands alone. -/
theorem Catalogue.entries_areWritten : ∀ e ∈ Catalogue.entries, e.IsWritten := by
  simp only [Catalogue.entries, List.forall_mem_cons, List.not_mem_nil, false_imp_iff, implies_true, and_true]
  and_intros <;> exact isWritten_of_chars rfl (by decide +kernel)

/-! ## What is reported -/

namespace Analyzer

/-- A violation that a rule finds in a type which is not exempt from it. -/
structure IsFinding (a : Analyzer) (t : TypeDecl) (r : Rule) (v : Violation) : Prop where
  uncovered : ∀ u ∈ t.suppressions, u.covers r.code r.name = false
  message : v.message = Template.render r.entry.messageFormat v.arguments
  /-- The message reads as segments: their texts, and the arguments at their places. -/
  segments : ∃ segments, r.entry.messageFormat = Template.write segments ∧
    v.message = String.join (segments.map fun s => s.fill v.arguments)
  arguments : r.entry.Fits v.arguments
  /-- The configured severity, or that of the rule. -/
  severity : v.severity = (a.config.severityFor? r.code r.name).getD r.entry.severity
  suggestion : v.suggestion = some r.entry.title
  location : v.location ∈ t.locations

/-- The warning that a type is exempt from a rule for no stated reason, whatever severity is configured. -/
structure IsReminder (t : TypeDecl) (r : Rule) (v : Violation) : Prop where
  covered : ∃ u ∈ t.suppressions, u.covers r.code r.name = true
  unjustified : ∀ u ∈ t.suppressions, u.covers r.code r.name = true → ¬ u.Justified
  severity : v.severity = .warning
  location : v.location = t.location
  arguments : v.arguments = []

/-- The violation stems from the rule, which concerns the type and is on. -/
structure StemsFrom (a : Analyzer) (t : TypeDecl) (r : Rule) (v : Violation) : Prop where
  code : v.code = r.entry.code
  rule : v.rule = r.entry.name
  applies : r.applies (a.registry.classify t) = true
  enabled : a.config.isEnabled r.code r.name = true
  form : a.IsFinding t r v ∨ IsReminder t r v

variable {a : Analyzer} {t : TypeDecl} {r : Rule} {v : Violation}

theorem examines_of_mem_share (h : v ∈ a.share t r) : a.examines t r = true := by
  by_contra hx
  unfold share findings at h
  rw [if_neg hx] at h
  exact absurd h List.not_mem_nil

/-- Where no suppression covers the rule, its findings are reported with the configured severity. -/
theorem share_of_uncovered (h : ¬ r.CoveredIn t.suppressions) :
    a.share t r = (a.findings t r).map (a.withSeverity r) := by
  have hnone : r.covering t = [] := by
    apply List.filter_eq_nil_iff.2
    intro u hu hc
    exact h ⟨u, hu, hc⟩
  unfold share reported Rule.allowance
  rw [hnone]
  cases a.findings t r <;> rfl

theorem mem_check_of_mem_findings (h : v ∈ a.findings t r) : v ∈ r.check (Subject.of a.registry t) := by
  unfold findings at h
  split at h
  · exact h
  · exact absurd h List.not_mem_nil

theorem isFinding_of_uncovered (hr : r.FindsInForm) (he : r.entry.IsWritten)
    (hc : ¬ r.CoveredIn t.suppressions) (h : v ∈ a.share t r) :
    v.code = r.entry.code ∧ v.rule = r.entry.name ∧ a.IsFinding t r v := by
  rw [share_of_uncovered hc] at h
  obtain ⟨w, hw, rfl⟩ := List.mem_map.1 h
  obtain ⟨location, hl, args, hfits, rfl⟩ := hr _ w (mem_check_of_mem_findings hw)
  have huncovered : ∀ u ∈ t.suppressions, u.covers r.code r.name = false := by
    intro u hu
    rw [Bool.eq_false_iff]
    exact fun hcovers => hc ⟨u, hu, hcovers⟩
  have hsegments : ∃ segments, r.entry.messageFormat = Template.write segments ∧
      Template.render r.entry.messageFormat args = String.join (segments.map fun s => s.fill args) := by
    obtain ⟨segments, hs⟩ := he
    exact ⟨segments, hs, by rw [hs, Template.render_write]⟩
  have hseverity : (a.withSeverity r (r.entry.violation location args)) =
      { r.entry.violation location args with
        severity := (a.config.severityFor? r.code r.name).getD r.entry.severity } := by
    unfold withSeverity
    cases a.config.severityFor? r.code r.name <;> rfl
  rw [hseverity]
  exact ⟨rfl, rfl, huncovered, rfl, hsegments, hfits, rfl, rfl, hl⟩

/-- A covered rule that still reports something reminds of the missing reason. -/
theorem eq_missingReason_of_covered (hc : r.CoveredIn t.suppressions) (h : v ∈ a.share t r) :
    ¬ r.ExcusedIn t.suppressions ∧ v = r.missingReason t := by
  have hexcused : ¬ (r.needsReason = false ∨ r.ExcusedIn t.suppressions) := by
    intro hx
    rw [a.share_of_excused hc hx] at h
    exact absurd h List.not_mem_nil
  rw [not_or, Bool.not_eq_false] at hexcused
  rw [a.share_of_not_excused hc hexcused.1 hexcused.2] at h
  split at h
  · exact absurd h List.not_mem_nil
  · exact ⟨hexcused.2, List.mem_singleton.1 h⟩

theorem stemsFrom_of_mem_share (hr : r.FindsInForm) (he : r.entry.IsWritten) (h : v ∈ a.share t r) :
    a.StemsFrom t r v := by
  have hx := examines_of_mem_share h
  simp only [examines, Bool.and_eq_true] at hx
  obtain ⟨⟨-, happlies⟩, henabled⟩ := hx
  by_cases hc : r.CoveredIn t.suppressions
  · obtain ⟨hexcused, rfl⟩ := eq_missingReason_of_covered hc h
    refine ⟨rfl, rfl, happlies, henabled, .inr ⟨hc, ?_, rfl, rfl, rfl⟩⟩
    intro u hu hcovers hjustified
    exact hexcused ⟨u, hu, hcovers, hjustified⟩
  · obtain ⟨hcode, hrule, hfinding⟩ := isFinding_of_uncovered hr he hc h
    exact ⟨hcode, hrule, happlies, henabled, .inl hfinding⟩

end Analyzer

/-- Every violation that an analyzer built for a preset and a configuration reports in a type stems from a rule of the
preset. It is a finding of that rule with fitting arguments, or the reminder that the exemption lacks a reason. -/
theorem violations_inForm :
    (∀ (host : Host) (p : Preset) (config : Config), host.GivesWorkers config.parallelism →
      Analyzer.ofConfig host (some p.name) config = .ok (.ofPreset p config)) ∧
    ∀ (p : Preset) (config : Config) (t : TypeDecl), ∀ v ∈ (Analyzer.ofPreset p config).evaluate t,
      ∃ r ∈ p.rules config, (Analyzer.ofPreset p config).StemsFrom t r v := by
  refine ⟨fun host p config hw => Analyzer.ofConfig_name hw p, ?_⟩
  intro p config t v hv
  rw [Analyzer.evaluate_eq_flatMap] at hv
  obtain ⟨r, hr, hv⟩ := List.mem_flatMap.1 hv
  have hwritten := Catalogue.entries_areWritten r.entry (p.entry_mem config r hr)
  exact ⟨r, hr, Analyzer.stemsFrom_of_mem_share (p.rules_findInForm config r hr) hwritten hv⟩

/-- A configuration in which an open type is an error and a missing property of codes a remark. -/
def mixedSeverities : Config where
  rules := [("ZNT1001A", { severity := some .error }), ("code-required-properties", { severity := some .info })]

/-- A code that is open, for no stated reason, and lacks its definition. -/
def looseCode : TypeDecl where
  name := "LooseCode"
  interfaces := ["Zentient.Abstractions.Codes.ICode"]
  suppressions := [{ rule := "concrete-type-must-be-sealed", justification := some "  " }]
  location := { file := "Codes.cs", line := 3, column := 1 }

/-- The finding that the definition is missing, as a remark. -/
def missingDefinition : Violation where
  code := "ZNT1003E"
  rule := "code-required-properties"
  severity := .info
  location := { file := "Codes.cs", line := 3, column := 1 }
  message := "Type 'LooseCode' implements ICode but is missing a readable 'Definition' property"
  arguments := ["LooseCode", "Definition"]
  suggestion := some "Codes must expose their definition"

/-- The reminder stays a warning, and the finding takes the configured severity. -/
theorem violations_inForm_looseCode :
    let a := Analyzer.ofPreset .strict mixedSeverities
    a.evaluate looseCode = [mustBeSealed.missingReason looseCode, missingDefinition] ∧
      (∃ r ∈ Preset.rules .strict mixedSeverities, a.StemsFrom looseCode r (mustBeSealed.missingReason looseCode)) ∧
      ∃ r ∈ Preset.rules .strict mixedSeverities, a.StemsFrom looseCode r missingDefinition := by
  intro a
  have heval : a.evaluate looseCode = [mustBeSealed.missingReason looseCode, missingDefinition] := by decide +kernel
  refine ⟨heval, ?_, ?_⟩
  · apply violations_inForm.2
    rw [heval]
    exact List.mem_cons_self
  · apply violations_inForm.2
    rw [heval]
    exact List.mem_cons_of_mem _ List.mem_cons_self

end TypeDoctrine
