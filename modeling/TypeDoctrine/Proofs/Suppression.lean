import TypeDoctrine.Proofs.AnalysisOrder
import TypeDoctrine.Proofs.PresetRules
import TypeDoctrine.Proofs.Trimming

/-!
# Suppressions are local

Adding a suppression to a type changes nothing but the shares of the rules that it covers
(`suppression_isLocal`). A covered rule contributes nothing, or, when it needs a reason and no covering
suppression gives one, a single warning in place of its findings. So a justified suppression only takes
violations away, from the type and from whole reports.

This holds of rules whose checks do not read suppressions (`Rule.IgnoresSuppressions`), as the checks of all
presets do not.
-/

namespace TypeDoctrine

/-! ## Reasons -/

namespace Suppression

/-- The justification holds more than blanks. -/
def Justified (s : Suppression) : Prop :=
  ∃ text, s.justification = some text ∧ ∃ c ∈ text.toList, Text.isBlank c = false

theorem isSome_reason?_iff (s : Suppression) : s.reason?.isSome = true ↔ s.Justified := by
  unfold reason? Justified
  cases s.justification with
  | none => simp
  | some text =>
    simp only [Option.bind_some, Option.some.injEq, exists_eq_left']
    split
    · next h =>
      rw [List.isEmpty_iff, Text.trim_eq_nil_iff] at h
      simp +contextual [h]
    · next h =>
      rw [List.isEmpty_iff, Text.trim_eq_nil_iff] at h
      simpa using h

end Suppression

/-! ## Rules that do not read suppressions -/

/-- The type with other suppressions. -/
def TypeDecl.withSuppressions (t : TypeDecl) (l : List Suppression) : TypeDecl :=
  { t with suppressions := l }

namespace Rule

/-- The check of the rule does not read the suppressions of the type. -/
def IgnoresSuppressions (r : Rule) : Prop :=
  ∀ (s : Subject) (l : List Suppression), r.check { s with type := s.type.withSuppressions l } = r.check s

theorem requiredProperties_ignoresSuppressions (table : RequiredProperties) : table.toRule.IgnoresSuppressions :=
  fun _ _ => rfl

/-- So do rules that report every type of a category, by its name and its classification. -/
theorem categoryReport_ignoresSuppressions (e : RuleEntry) (args : String → Classification → List String) :
    (Rule.ofCategory e fun s => [s.atType e (args s.type.name s.classification)]).IgnoresSuppressions :=
  fun _ _ => rfl

theorem preset_ignoresSuppressions (p : Preset) (config : Config) :
    ∀ r ∈ p.rules config, r.IgnoresSuppressions := by
  refine Preset.forall_rules ?_ ?_ ?_ ?_ p config
  · rw [forall_shapeRules]
    exact ⟨fun _ _ => rfl, fun _ _ => rfl, fun _ _ => rfl, fun _ _ => rfl⟩
  · rw [forall_successRules]
    exact ⟨fun _ _ => rfl, fun _ _ => rfl, fun _ _ => rfl⟩
  · intro q _ names
    exact requiredProperties_ignoresSuppressions (q.requireAll names)
  · rw [forall_memberRules]
    exact ⟨fun _ _ => rfl, fun _ _ => rfl, fun _ _ => rfl, fun _ _ => rfl, fun _ _ => rfl, fun _ _ => rfl,
      fun _ _ => rfl, fun _ _ => rfl⟩

/-! ## Allowances -/

/-- A suppression of the type covers the rule. -/
def CoveredIn (r : Rule) (l : List Suppression) : Prop :=
  ∃ u ∈ l, u.covers r.code r.name = true

/-- A suppression of the type covers the rule and is justified. -/
def ExcusedIn (r : Rule) (l : List Suppression) : Prop :=
  ∃ u ∈ l, u.covers r.code r.name = true ∧ u.Justified

theorem allowance_of_coveredIn {r : Rule} {t : TypeDecl} (h : r.CoveredIn t.suppressions) :
    ∃ reason, r.allowance t = .allowed reason ∧ (reason.isSome = true ↔ r.ExcusedIn t.suppressions) := by
  obtain ⟨u, hu, hc⟩ := h
  have hne : r.covering t ≠ [] :=
    List.ne_nil_of_mem (List.mem_filter.2 ⟨hu, hc⟩)
  refine ⟨(r.covering t).findSome? Suppression.reason?, ?_, ?_⟩
  · unfold allowance
    split
    · next h => exact absurd h hne
    · rfl
  · simp only [List.findSome?_isSome_iff, Suppression.isSome_reason?_iff, covering, List.mem_filter, and_assoc]
    rfl

/-- A suppression that does not cover the rule makes no difference. -/
theorem allowance_of_not_covers {r : Rule} {t t' : TypeDecl} {s : Suppression} {xs ys : List Suppression}
    (ht : t.suppressions = xs ++ ys) (ht' : t'.suppressions = xs ++ s :: ys)
    (hs : s.covers r.code r.name = false) : r.allowance t' = r.allowance t := by
  have hc : r.covering t' = r.covering t := by
    simp only [covering, ht, ht', List.filter_append, List.filter_cons, hs, Bool.false_eq_true, if_false]
  simp only [allowance, hc]

end Rule

/-! ## Shares -/

namespace Analyzer

variable (a : Analyzer) {t : TypeDecl} {r : Rule}

theorem findings_withSuppressions (h : r.IgnoresSuppressions) (t : TypeDecl) (l : List Suppression) :
    a.findings (t.withSuppressions l) r = a.findings t r := by
  have hcheck : r.check (Subject.of a.registry (t.withSuppressions l)) = r.check (Subject.of a.registry t) :=
    h (Subject.of a.registry t) l
  have hexamines : a.examines (t.withSuppressions l) r = a.examines t r := rfl
  simp only [findings, hcheck, hexamines]

theorem findings_ne_nil_iff (hc : t.isConcreteClass = true) :
    a.findings t r ≠ [] ↔ (a.registry.classify t).isEmpty = false ∧ r.applies (a.registry.classify t) = true ∧
      a.isEnabled r = true ∧ r.check (.of a.registry t) ≠ [] := by
  unfold findings
  split
  · next h =>
    simp only [examines, hc, Bool.true_and, Bool.and_eq_true, Bool.not_eq_true'] at h
    simp only [h, true_and]
  · next h =>
    refine ⟨fun hn => absurd rfl hn, fun ⟨hm, ha, he, _⟩ => absurd ?_ h⟩
    simp only [examines, hc, hm, ha, he, Bool.not_false, Bool.and_self]

theorem share_of_excused (h : r.CoveredIn t.suppressions)
    (hx : r.needsReason = false ∨ r.ExcusedIn t.suppressions) : a.share t r = [] := by
  obtain ⟨reason, hr, hs⟩ := Rule.allowance_of_coveredIn h
  unfold share reported
  split
  · rfl
  · simp only [hr]
    rcases hx with hx | hx
    · rw [hx, Bool.false_and, if_neg Bool.false_ne_true]
    · rw [← Option.not_isSome, hs.2 hx, Bool.not_true, Bool.and_false, if_neg Bool.false_ne_true]

theorem share_of_not_excused (h : r.CoveredIn t.suppressions) (hn : r.needsReason = true)
    (hx : ¬ r.ExcusedIn t.suppressions) :
    a.share t r = if a.findings t r = [] then [] else [r.missingReason t] := by
  obtain ⟨reason, hr, hs⟩ := Rule.allowance_of_coveredIn h
  have hnone : reason.isNone = true := by
    rw [← Option.not_isSome, Bool.not_eq_true', Bool.eq_false_iff]
    exact fun hsome => hx (hs.1 hsome)
  unfold share reported
  simp only [hr, hn, hnone, Bool.and_self, if_true, List.isEmpty_iff]

theorem share_of_not_covers {s : Suppression} {xs ys : List Suppression} (hr : r.IgnoresSuppressions)
    (ht : t.suppressions = xs ++ ys) (hs : s.covers r.code r.name = false) :
    a.share (t.withSuppressions (xs ++ s :: ys)) r = a.share t r := by
  unfold share
  rw [a.findings_withSuppressions hr]
  unfold reported
  rw [Rule.allowance_of_not_covers ht rfl hs]
  rfl

/-- A justified suppression takes away the share of each rule that it covers. -/
theorem share_sublist {s : Suppression} {xs ys : List Suppression} (hr : r.IgnoresSuppressions)
    (ht : t.suppressions = xs ++ ys) (hs : s.Justified) :
    (a.share (t.withSuppressions (xs ++ s :: ys)) r).Sublist (a.share t r) := by
  cases hc : s.covers r.code r.name with
  | false => simp only [a.share_of_not_covers hr ht hc, List.Sublist.refl]
  | true =>
    have hmem : s ∈ (t.withSuppressions (xs ++ s :: ys)).suppressions := by simp [TypeDecl.withSuppressions]
    rw [a.share_of_excused ⟨s, hmem, hc⟩ (.inr ⟨s, hmem, hc, hs⟩)]
    exact List.nil_sublist _

/-- What the suppression `s` does that takes a type from `t` to `t'`. -/
structure ActsLocally (a : Analyzer) (s : Suppression) (t t' : TypeDecl) : Prop where
  /-- Before and after, the violations are the shares of the rules, in order. -/
  shares : a.evaluate t = a.rules.flatMap (a.share t) ∧ a.evaluate t' = a.rules.flatMap (a.share t')
  /-- A rule that `s` does not cover keeps its share. -/
  others : ∀ r ∈ a.rules, s.covers r.code r.name = false → a.share t' r = a.share t r
  /-- A covered rule contributes nothing if it needs no reason or has one. -/
  excused : ∀ r ∈ a.rules, r.CoveredIn t'.suppressions →
    r.needsReason = false ∨ r.ExcusedIn t'.suppressions → a.share t' r = []
  /-- Otherwise its share is one warning at the type, provided that it is run and finds something. -/
  warned : ∀ r ∈ a.rules, r.CoveredIn t'.suppressions → r.needsReason = true →
    ¬ r.ExcusedIn t'.suppressions → ∃ warning : Violation, warning.severity = .warning ∧
      warning.location = t.location ∧
      (a.share t' r = [] ∨ a.share t' r = [warning]) ∧
      (a.share t' r = [warning] ↔ (a.registry.classify t).isEmpty = false ∧
        r.applies (a.registry.classify t) = true ∧ a.isEnabled r = true ∧ r.check (.of a.registry t) ≠ [])
  /-- If `s` is justified, violations are only taken away, from the type and from every report. -/
  fewer : s.Justified → (a.evaluate t').Sublist (a.evaluate t) ∧
    ∀ before after, (a.analyze (before ++ t' :: after)).violations.Sublist
      (a.analyze (before ++ t :: after)).violations

end Analyzer

/-- Suppressions are local: one that is added anywhere to those of a concrete class acts on the rules that
it covers and on no others. No check of a preset, of a table of properties or of a report by category reads
suppressions, so analyzers of such rules qualify. -/
theorem suppression_isLocal :
    (∀ (p : Preset) (config : Config), ∀ r ∈ p.rules config, r.IgnoresSuppressions) ∧
    (∀ table : RequiredProperties, table.toRule.IgnoresSuppressions) ∧
    (∀ (e : RuleEntry) (args : String → Classification → List String),
      (Rule.ofCategory e fun s => [s.atType e (args s.type.name s.classification)]).IgnoresSuppressions) ∧
    ∀ a : Analyzer, (∀ r ∈ a.rules, r.IgnoresSuppressions) →
      ∀ t : TypeDecl, t.isConcreteClass = true →
      ∀ (xs ys : List Suppression) (s : Suppression), t.suppressions = xs ++ ys →
        a.ActsLocally s t (t.withSuppressions (xs ++ s :: ys)) := by
  refine ⟨Rule.preset_ignoresSuppressions, Rule.requiredProperties_ignoresSuppressions,
    Rule.categoryReport_ignoresSuppressions, fun a hr t hc xs ys s ht => ?_⟩
  refine ⟨⟨a.evaluate_eq_flatMap t, a.evaluate_eq_flatMap _⟩, ?_, ?_, ?_, ?_⟩
  · intro r hmem hs
    exact a.share_of_not_covers (hr r hmem) ht hs
  · intro r _ h hx
    exact a.share_of_excused h hx
  · intro r hmem h hn hx
    -- the warning names the rule and the type, and does not depend on the suppressions
    refine ⟨r.missingReason t, rfl, rfl, ?_⟩
    rw [← a.findings_ne_nil_iff hc, a.share_of_not_excused h hn hx, a.findings_withSuppressions (hr r hmem)]
    split
    · next hf => exact ⟨.inl rfl, nofun, fun hne => absurd hf hne⟩
    · next hf => exact ⟨.inr rfl, fun _ => hf, fun _ => rfl⟩
  · intro hs
    have he := a.evaluate_sublist fun r hmem => a.share_sublist (hr r hmem) ht hs
    exact ⟨he, a.analyze_sublist he⟩

/-- A code that is exempt from one of the two rules it breaks, for no stated reason. -/
def exemptCode : TypeDecl where
  name := "ExemptCode"
  interfaces := ["Zentient.Abstractions.Codes.ICode"]
  suppressions := [{ rule := "znt1001a" }]

/-- A justified suppression of all rules, added after the bare one, clears the code. -/
theorem suppression_isLocal_exemptCode :
    Analyzer.standard.ActsLocally { rule := "all", justification := some " legacy " } exemptCode
      (exemptCode.withSuppressions [{ rule := "znt1001a" }, { rule := "all", justification := some " legacy " }]) ∧
    (Analyzer.standard.evaluate exemptCode).map (·.severity) = [.warning, .error] := by
  constructor
  · exact suppression_isLocal.2.2.2 Analyzer.standard (suppression_isLocal.1 .recommended {}) exemptCode
      (by decide) [{ rule := "znt1001a" }] [] _ rfl
  · decide +kernel

end TypeDoctrine
