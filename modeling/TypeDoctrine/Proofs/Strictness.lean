import Mathlib.Data.List.Perm.Subperm
import TypeDoctrine.Proofs.AnalysisOrder
import TypeDoctrine.Proofs.PresetRules
import TypeDoctrine.Proofs.Verdict

/-!
# Stricter presets report more

Under one configuration the rules of `minimal` are some of those of `recommended`, in the same order, so its
violations are a sublist. `strict` has the rules of `recommended` with a longer list of required names, and
there `IsSuccess` may stand before names that the configuration asks for; so the violations of `recommended`
are among those of `strict`, each as often, but not always in the same order. How often a table asks for a
name does not depend on the order in which names are required (`count_requireAll`), and this carries over to
what is missing, to findings and to shares. Hence a check that passes under a stricter preset passes under a
milder one (`presets_ordered`).
-/

namespace TypeDoctrine

theorem subperm_map {α β : Type} {l l' : List α} (f : α → β) (h : l.Subperm l') :
    (l.map f).Subperm (l'.map f) := by
  obtain ⟨m, hperm, hsub⟩ := h
  exact ⟨m.map f, hperm.map f, hsub.map f⟩

theorem subperm_flatMap {α β : Type} {l : List α} {f g : α → List β} (h : ∀ x ∈ l, (f x).Subperm (g x)) :
    (l.flatMap f).Subperm (l.flatMap g) := by
  induction l with
  | nil => exact .refl _
  | cons x rest ih =>
    rw [List.forall_mem_cons] at h
    exact h.1.append (ih h.2)

/-! ## Required names -/

namespace RequiredProperties

variable (q : RequiredProperties)

theorem required_subperm {names names' : List String} (h : ∀ n ∈ names, n ∈ names') :
    (q.requireAll names).required.Subperm (q.requireAll names').required := by
  rw [List.subperm_ext_iff]
  intro n _
  rw [count_requireAll, count_requireAll]
  by_cases hn : n ∈ names
  · simp [hn, h n hn]
  · rw [if_neg hn]
    split <;> omega

theorem missing_subperm {names names' : List String} (h : ∀ n ∈ names, n ∈ names') (s : Subject) :
    ((q.requireAll names).missing s).Subperm ((q.requireAll names').missing s) := by
  unfold missing namesFor
  rw [requireAll_valueCapability, requireAll_valueCapability]
  exact ((q.required_subperm h).append (.refl _)).filter _

end RequiredProperties

/-! ## Shares -/

namespace Analyzer

variable (a : Analyzer) (t : TypeDecl)

theorem reported_subperm (r : Rule) {found found' : List Violation} (h : found.Subperm found') :
    (a.reported t r found).Subperm (a.reported t r found') :=
  a.reported_mono t r List.Subperm.refl (fun _ => List.nil_subperm) (fun _ => List.subperm_nil.1)
    (fun f _ _ hl => subperm_map f hl) h

/-- Requiring more names of a table takes nothing from its share. -/
theorem share_requireAll_subperm (q : RequiredProperties) {names names' : List String}
    (h : ∀ n ∈ names, n ∈ names') :
    (a.share t (q.requireAll names).toRule).Subperm (a.share t (q.requireAll names').toRule) := by
  -- the entry decides the code, the severity and which suppressions count
  have hentry : (q.requireAll names).toRule.entry = (q.requireAll names').toRule.entry := by
    simp [RequiredProperties.toRule]
  have hexamines : a.examines t (q.requireAll names).toRule = a.examines t (q.requireAll names').toRule := by
    simp [examines, isEnabled, Rule.code, Rule.name, RequiredProperties.toRule]
  have hcheck : ((q.requireAll names).toRule.check (.of a.registry t)).Subperm
      ((q.requireAll names').toRule.check (.of a.registry t)) := by
    simp only [RequiredProperties.toRule, RequiredProperties.requireAll_entry]
    exact subperm_map _ (q.missing_subperm h _)
  have hfindings : (a.findings t (q.requireAll names).toRule).Subperm
      (a.findings t (q.requireAll names').toRule) := by
    unfold findings
    rw [hexamines]
    split
    · exact hcheck
    · exact .refl _
  unfold share
  rw [reported_congr t hentry (by rw [Rule.code, Rule.name, hentry]; rfl)]
  exact a.reported_subperm t _ hfindings

end Analyzer

/-! ## Presets -/

namespace Preset

variable (config : Config)

theorem rules_minimal_sublist : (rules .minimal config).Sublist (rules .recommended config) := by
  have htables : requirements .minimal config = requirements .recommended config := rfl
  unfold rules
  rw [htables]
  exact (((List.Sublist.refl _).append (List.nil_sublist _)).append (.refl _)).append (List.nil_sublist _)

/-- What recommended rules give one by one is among what strict rules give, if this holds of every table. -/
theorem flatMap_recommended_subperm {α : Type} (f : Rule → List α)
    (h : ∀ (q : RequiredProperties) names names', (∀ n ∈ names, n ∈ names') →
      (f (q.requireAll names).toRule).Subperm (f (q.requireAll names').toRule)) :
    ((rules .recommended config).flatMap f).Subperm ((rules .strict config).flatMap f) := by
  have htables : ((requirements .recommended config).map RequiredProperties.toRule |>.flatMap f).Subperm
      ((requirements .strict config).map RequiredProperties.toRule |>.flatMap f) := by
    unfold requirements
    simp only [List.map_map, List.flatMap_map]
    -- table by table: the strict preset asks for its own names first, then for the same ones
    refine subperm_flatMap fun q _ => h q _ _ fun n hn => ?_
    exact List.mem_append_right _ hn
  unfold rules
  simp only [List.flatMap_append]
  exact ((List.Subperm.refl _).append htables).append (.refl _)

end Preset

namespace Analyzer

variable (config : Config)

/-- The share of a rule does not depend on the preset that it is taken from. -/
theorem share_ofPreset (p p' : Preset) (t : TypeDecl) :
    (ofPreset p config).share t = (ofPreset p' config).share t :=
  rfl

theorem evaluate_minimal_sublist (t : TypeDecl) :
    ((ofPreset .minimal config).evaluate t).Sublist ((ofPreset .recommended config).evaluate t) := by
  rw [evaluate_eq_flatMap, evaluate_eq_flatMap, share_ofPreset config .minimal .recommended]
  exact (Preset.rules_minimal_sublist config).flatMap _

theorem evaluate_recommended_subperm (t : TypeDecl) :
    ((ofPreset .recommended config).evaluate t).Subperm ((ofPreset .strict config).evaluate t) := by
  rw [evaluate_eq_flatMap, evaluate_eq_flatMap, share_ofPreset config .recommended .strict]
  exact Preset.flatMap_recommended_subperm config _ fun q _ _ h => share_requireAll_subperm _ t q h

theorem analyze_minimal_sublist (types : List TypeDecl) :
    ((ofPreset .minimal config).analyze types).violations.Sublist
      ((ofPreset .recommended config).analyze types).violations := by
  rw [violations_analyze, violations_analyze]
  exact sublist_mergeSort_of_sublist precedes_trans precedes_total
    (.flatMap_right types fun t _ => evaluate_minimal_sublist config t)

theorem analyze_recommended_subperm (types : List TypeDecl) :
    ((ofPreset .recommended config).analyze types).violations.Subperm
      ((ofPreset .strict config).analyze types).violations := by
  have hfound : (types.flatMap (ofPreset .recommended config).evaluate).Subperm
      (types.flatMap (ofPreset .strict config).evaluate) :=
    subperm_flatMap fun t _ => evaluate_recommended_subperm config t
  rw [violations_analyze, violations_analyze]
  exact ((List.mergeSort_perm _ _).subperm.trans hfound).trans (List.mergeSort_perm _ _).symm.subperm

end Analyzer

/-- A check that passes under one preset passes under every preset that reports no other violations. -/
theorem CheckRequest.run_of_preset (p p' : Preset) {host : Host} {r : CheckRequest} {report : Report}
    (hmilder : ∀ c, ((Analyzer.ofPreset p' c).analyze r.types).violations ⊆
      ((Analyzer.ofPreset p c).analyze r.types).violations)
    (h : CheckRequest.run host { r with preset := some p.name } = .ok report) :
    ∃ c, report = (Analyzer.ofPreset p c).analyze r.types ∧
      CheckRequest.run host { r with preset := some p'.name } =
        .ok ((Analyzer.ofPreset p' c).analyze r.types) := by
  obtain ⟨c, threshold, q, hs, rfl, hclear⟩ := run_eq_ok_iff.1 h
  obtain rfl : q = p := by
    have hq := (Preset.ofName?_eq_some_iff p.name q).2 hs.preset_name
    have hp := (Preset.ofName?_eq_some_iff p.name p).2 rfl
    exact Option.some.inj (hq.symm.trans hp)
  refine ⟨c, rfl, run_eq_ok_iff.2 ⟨c, threshold, p', ⟨hs.config, hs.threshold_name, rfl, hs.workers⟩, rfl, ?_⟩⟩
  intro v hv
  exact hclear v (hmilder c hv)

/-! ## Main result -/

/-- Presets are ordered by strictness. Under every configuration, `minimal` reports of every type a sublist of
what `recommended` reports, and that is part of what `strict` reports, each violation as often. So what passes
under `strict` passes under `recommended`, and what passes under `recommended` passes under `minimal`. -/
theorem presets_ordered :
    (∀ config : Config, ∃ minimal recommended strict,
      (∀ host : Host, host.GivesWorkers config.parallelism →
        Analyzer.ofConfig host (some "minimal") config = .ok minimal ∧
        Analyzer.ofConfig host (some "recommended") config = .ok recommended ∧
        Analyzer.ofConfig host (some "strict") config = .ok strict) ∧
      ∀ t, (minimal.evaluate t).Sublist (recommended.evaluate t) ∧
        (recommended.evaluate t).Subperm (strict.evaluate t)) ∧
    (∀ host (r : CheckRequest) report, CheckRequest.run host { r with preset := some "strict" } = .ok report →
      ∃ report', CheckRequest.run host { r with preset := some "recommended" } = .ok report' ∧
        report'.violations.Subperm report.violations) ∧
    ∀ host (r : CheckRequest) report, CheckRequest.run host { r with preset := some "recommended" } = .ok report →
      ∃ report', CheckRequest.run host { r with preset := some "minimal" } = .ok report' ∧
        report'.violations.Sublist report.violations := by
  refine ⟨?_, ?_, ?_⟩
  · intro config
    refine ⟨_, _, _, fun host hw => ⟨Analyzer.ofConfig_name hw .minimal, Analyzer.ofConfig_name hw .recommended,
      Analyzer.ofConfig_name hw .strict⟩, fun t => ?_⟩
    exact ⟨Analyzer.evaluate_minimal_sublist config t, Analyzer.evaluate_recommended_subperm config t⟩
  · intro host r report h
    obtain ⟨c, rfl, hrun⟩ := CheckRequest.run_of_preset .strict .recommended
      (fun c => (Analyzer.analyze_recommended_subperm c r.types).subset) h
    exact ⟨_, hrun, Analyzer.analyze_recommended_subperm c r.types⟩
  · intro host r report h
    obtain ⟨c, rfl, hrun⟩ := CheckRequest.run_of_preset .recommended .minimal
      (fun c => (Analyzer.analyze_minimal_sublist c r.types).subset) h
    exact ⟨_, hrun, Analyzer.analyze_minimal_sublist c r.types⟩

/-- A configuration that requires of results what the strict preset requires, after another name. -/
def demandingConfig : Config where
  rules := [("ZNT1003A",
    { options := [("additional-properties", .array [.string "CorrelationId", .string "IsSuccess"])] })]

/-- A result without a success flag, exempt from every rule for no stated reason if `exempt` is set. -/
def flaglessResult (exempt : Bool) : TypeDecl where
  name := "FlaglessResult"
  isSealed := true
  interfaces := ["Zentient.Abstractions.Results.IResult"]
  properties := [.getOnly "Messages", .getOnly "Errors"]
  suppressions := if exempt then [{ rule := "all" }] else []

/-- Under the demanding configuration the result lacks the same names for both presets, in another order. With
an exemption it passes under all presets, though the strict one has a warning. -/
theorem presets_ordered_flaglessResult :
    (∃ recommended strict,
      Analyzer.ofConfig (FileTree.host {}) (some "recommended") demandingConfig = .ok recommended ∧
      Analyzer.ofConfig (FileTree.host {}) (some "strict") demandingConfig = .ok strict ∧
      (recommended.evaluate (flaglessResult false)).Subperm (strict.evaluate (flaglessResult false)) ∧
      ¬ (recommended.evaluate (flaglessResult false)).Sublist (strict.evaluate (flaglessResult false))) ∧
    ∃ strict recommended minimal : Report,
      CheckRequest.run (FileTree.host {}) { types := [flaglessResult true], preset := some "strict" } = .ok strict ∧
      strict.violations.length = 1 ∧
      CheckRequest.run (FileTree.host {}) { types := [flaglessResult true], preset := some "recommended" } =
        .ok recommended ∧
      CheckRequest.run (FileTree.host {}) { types := [flaglessResult true], preset := some "minimal" } =
        .ok minimal := by
  obtain ⟨hevaluate, hstrict, hrecommended⟩ := presets_ordered
  have hworkers := (FileTree.startsPools {}).givesWorkers none
  constructor
  · obtain ⟨minimal, recommended, strict, hbuilt, ht⟩ := hevaluate demandingConfig
    obtain ⟨-, hr, hs⟩ := hbuilt (FileTree.host {}) hworkers
    have hr' : recommended = .ofPreset .recommended demandingConfig :=
      Except.ok.inj (hr.symm.trans (Analyzer.ofConfig_name hworkers .recommended))
    have hs' : strict = .ofPreset .strict demandingConfig :=
      Except.ok.inj (hs.symm.trans (Analyzer.ofConfig_name hworkers .strict))
    refine ⟨recommended, strict, hr, hs, (ht _).2, ?_⟩
    rw [hr', hs']
    decide +kernel
  · have hsettled : CheckRequest.Settled (FileTree.host {}) { types := [flaglessResult true], preset := some "strict" }
        {} .error .strict := ⟨Config.chosen_bare, rfl, rfl, hworkers⟩
    have hrun := CheckRequest.run_eq_ok_iff.2 ⟨_, _, _, hsettled, rfl, by decide +kernel⟩
    obtain ⟨report', hrun', -⟩ := hstrict _ { types := [flaglessResult true] } _ hrun
    obtain ⟨report'', hrun'', -⟩ := hrecommended _ { types := [flaglessResult true] } _ hrun'
    exact ⟨_, report', report'', hrun, by decide +kernel, hrun', hrun''⟩

end TypeDoctrine
