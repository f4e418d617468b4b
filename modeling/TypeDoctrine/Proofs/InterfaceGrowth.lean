import TypeDoctrine.Proofs.AnalysisOrder
import TypeDoctrine.Proofs.Classification
import TypeDoctrine.Proofs.PresetRules
import TypeDoctrine.Proofs.Verdict

/-!
# More interfaces, no fewer violations

A type that gains an interface keeps the capabilities it has. A rule that persists under more capabilities
(`Rule.Persists`) keeps applying and finds what it found before, and every rule of a preset does: most checks
read neither interfaces nor capabilities, and a table of required properties can only ask for more. So the
violations of a type are among those of the type with one more interface, and a check that fails still fails
(`interface_hides_nothing`).
-/

namespace TypeDoctrine

open Rules

/-- The type with other interfaces. -/
def TypeDecl.withInterfaces (t : TypeDecl) (l : List String) : TypeDecl :=
  { t with interfaces := l }

/-- `t'` is `t` with one more interface, which stands anywhere among the others. -/
def TypeDecl.Gains (t : TypeDecl) (i : String) (t' : TypeDecl) : Prop :=
  ∃ before after, t.interfaces = before ++ after ∧ t' = t.withInterfaces (before ++ i :: after)

/-! ## Capabilities -/

namespace Classification

/-- Every capability of the first is one of the second. -/
def Within (c c' : Classification) : Prop :=
  ∀ x, c.has x = true → c'.has x = true

variable {c c' : Classification}

theorem Within.inCategory (h : c.Within c') {k : Category} (hk : c.inCategory k = true) :
    c'.inCategory k = true := by
  rw [inCategory_iff] at hk ⊢
  obtain ⟨x, hx, hmem⟩ := hk
  exact ⟨x, h x hx, hmem⟩

theorem Within.hasAny (h : c.Within c') {l : List Capability} (hl : c.hasAny l = true) : c'.hasAny l = true := by
  rw [hasAny_iff] at hl ⊢
  obtain ⟨x, hmem, hx⟩ := hl
  exact ⟨x, hmem, h x hx⟩

theorem Within.isEmpty_eq_false (h : c.Within c') (hc : c.isEmpty = false) : c'.isEmpty = false := by
  rw [isEmpty, List.isEmpty_eq_false_iff_exists_mem] at hc
  obtain ⟨x, hx⟩ := hc
  have hx' : c'.has x = true := h x (List.contains_iff_mem.2 hx)
  rw [isEmpty, List.isEmpty_eq_false_iff_exists_mem]
  exact ⟨x, List.contains_iff_mem.1 hx'⟩

end Classification

theorem Registry.classify_within (g : Registry) {t t' : TypeDecl} (h : ∀ i ∈ t.interfaces, i ∈ t'.interfaces) :
    (g.classify t).Within (g.classify t') := by
  intro x hx
  rw [has_classify] at hx ⊢
  obtain ⟨i, hi, hg⟩ := hx
  exact ⟨i, h i hi, hg⟩

/-! ## Rules -/

namespace Rule

/-- A type with more interfaces and capabilities is still concerned by the rule, which finds at least what it
found before. -/
structure Persists (r : Rule) : Prop where
  applies : ∀ c c' : Classification, c.Within c' → r.applies c = true → r.applies c' = true
  check : ∀ (t : TypeDecl) (l : List String) (g : Registry) (c c' : Classification), c.Within c' →
    (r.check ⟨t, c, g⟩).Sublist (r.check ⟨t.withInterfaces l, c', g⟩)

/-- The check reads neither the interfaces nor the classification of the type. -/
def ReadsMembers (check : Subject → List Violation) : Prop :=
  ∀ (t : TypeDecl) (l : List String) (g : Registry) (c c' : Classification),
    check ⟨t.withInterfaces l, c', g⟩ = check ⟨t, c, g⟩

theorem persists_of_readsMembers {r : Rule} (hr : ReadsMembers r.check)
    (ha : ∀ c c' : Classification, c.Within c' → r.applies c = true → r.applies c' = true) : r.Persists where
  applies := ha
  check t l g c c' _ := hr t l g c c' ▸ .refl _

/-! Rules choose their types in three ways: by a category, by a capability, and by several of them. -/

theorem persists_ofCategory {e : RuleEntry} {check : Subject → List Violation} (hr : ReadsMembers check) :
    (Rule.ofCategory e check).Persists :=
  persists_of_readsMembers hr fun _ _ h hk => h.inCategory hk

theorem persists_has {e : RuleEntry} {x : Capability} {check : Subject → List Violation}
    (hr : ReadsMembers check) : (Rule.mk e (fun c => c.has x) check).Persists :=
  persists_of_readsMembers hr fun _ _ h hx => h x hx

theorem persists_hasAny {e : RuleEntry} {l : List Capability} {check : Subject → List Violation}
    (hr : ReadsMembers check) : (Rule.mk e (fun c => c.hasAny l) check).Persists :=
  persists_of_readsMembers hr fun _ _ h hl => h.hasAny hl

/-- With more capabilities a table of required properties asks for the same names, and perhaps for `Value`
besides. -/
theorem namesFor_sublist (q : RequiredProperties) (t : TypeDecl) (l : List String) (g : Registry)
    {c c' : Classification} (h : c.Within c') :
    (q.namesFor ⟨t, c, g⟩).Sublist (q.namesFor ⟨t.withInterfaces l, c', g⟩) := by
  unfold RequiredProperties.namesFor Subject.has
  refine List.Sublist.append_left ?_ q.required
  cases q.valueCapability with
  | none => exact .refl _
  | some x =>
    cases hx : c.has x with
    | true => simp [hx, h x hx]
    | false => simp [hx]

theorem persists_toRule (q : RequiredProperties) : q.toRule.Persists where
  applies _ _ h hx := h q.capability hx
  check t l g _ _ h := ((namesFor_sublist q t l g h).filter _).map _

theorem persists_of_mem_preset (p : Preset) (config : Config) : ∀ r ∈ p.rules config, r.Persists := by
  refine Preset.forall_rules ?_ ?_ ?_ ?_ p config
  · rw [forall_shapeRules]
    exact ⟨persists_ofCategory fun _ _ _ _ _ => rfl, persists_ofCategory fun _ _ _ _ _ => rfl,
      persists_ofCategory fun _ _ _ _ _ => rfl, persists_ofCategory fun _ _ _ _ _ => rfl⟩
  · rw [forall_successRules]
    exact ⟨persists_hasAny fun _ _ _ _ _ => rfl, persists_has fun _ _ _ _ _ => rfl,
      persists_has fun _ _ _ _ _ => rfl⟩
  · intro q _ names
    exact persists_toRule (q.requireAll names)
  · rw [forall_memberRules]
    exact ⟨persists_has fun _ _ _ _ _ => rfl, persists_has fun _ _ _ _ _ => rfl,
      persists_has fun _ _ _ _ _ => rfl, persists_ofCategory fun _ _ _ _ _ => rfl,
      persists_ofCategory fun _ _ _ _ _ => rfl, persists_has fun _ _ _ _ _ => rfl,
      persists_ofCategory fun _ _ _ _ _ => rfl, persists_ofCategory fun _ _ _ _ _ => rfl⟩

end Rule

/-! ## Violations -/

namespace Analyzer

variable (a : Analyzer)

theorem examines_withInterfaces {r : Rule} (hr : r.Persists) {t : TypeDecl} {l : List String}
    (h : (a.registry.classify t).Within (a.registry.classify (t.withInterfaces l)))
    (he : a.examines t r = true) : a.examines (t.withInterfaces l) r = true := by
  simp only [examines, Bool.and_eq_true, Bool.not_eq_true'] at he ⊢
  obtain ⟨⟨⟨hc, hn⟩, ha⟩, hon⟩ := he
  exact ⟨⟨⟨hc, h.isEmpty_eq_false hn⟩, hr.applies _ _ h ha⟩, hon⟩

theorem share_withInterfaces {r : Rule} (hr : r.Persists) {t : TypeDecl} {l : List String}
    (h : ∀ i ∈ t.interfaces, i ∈ l) : (a.share t r).Sublist (a.share (t.withInterfaces l) r) := by
  have hw : (a.registry.classify t).Within (a.registry.classify (t.withInterfaces l)) :=
    a.registry.classify_within h
  have hf : (a.findings t r).Sublist (a.findings (t.withInterfaces l) r) := by
    unfold findings
    by_cases he : a.examines t r = true
    · rw [if_pos he, if_pos (a.examines_withInterfaces hr hw he)]
      exact hr.check t l a.registry _ _ hw
    · rw [if_neg he]
      exact List.nil_sublist _
  -- what is left of findings does not depend on the interfaces
  exact a.reported_sublist t r hf

theorem evaluate_gains (hr : ∀ r ∈ a.rules, r.Persists) {i : String} {t t' : TypeDecl} (h : t.Gains i t') :
    (a.evaluate t).Sublist (a.evaluate t') := by
  obtain ⟨before, after, hl, rfl⟩ := h
  refine a.evaluate_sublist fun r hmem => a.share_withInterfaces (hr r hmem) fun j hj => ?_
  rw [hl] at hj
  rcases List.mem_append.1 hj with hj | hj
  · exact List.mem_append_left _ hj
  · exact List.mem_append_right _ (List.mem_cons_of_mem i hj)

theorem ofPreset_evaluate_gains (p : Preset) (config : Config) {i : String} {t t' : TypeDecl}
    (h : t.Gains i t') : ((ofPreset p config).evaluate t).Sublist ((ofPreset p config).evaluate t') :=
  (ofPreset p config).evaluate_gains (Rule.persists_of_mem_preset p config) h

end Analyzer

/-! ## Main result -/

/-- Adding an interface to a type hides none of its violations. There is an analyzer for every preset and
configuration on a host that gives the workers, and whatever analyzer is built, the violations of the type, and
those of every report with the type in it, stay in place among the new ones. A check that fails at a threshold
still fails there. -/
theorem interface_hides_nothing (i : String) (t t' : TypeDecl) (h : t.Gains i t') :
    (∀ (host : Host) p (config : Config), host.GivesWorkers config.parallelism →
      Analyzer.ofConfig host (some (Preset.name p)) config = .ok (.ofPreset p config)) ∧
    (∀ host given config a, Analyzer.ofConfig host given config = .ok a →
      (a.evaluate t).Sublist (a.evaluate t') ∧
      ∀ before after, (a.analyze (before ++ t :: after)).violations.Sublist
        (a.analyze (before ++ t' :: after)).violations) ∧
    ∀ (host : Host) (r : CheckRequest) before after threshold report, r.types = before ++ t :: after →
      r.run host = .error (.failed threshold report) →
      ∃ report', CheckRequest.run host { r with types := before ++ t' :: after } =
          .error (.failed threshold report') ∧
        report.violations.Sublist report'.violations := by
  refine ⟨fun host p config hw => Analyzer.ofConfig_name hw p, ?_, ?_⟩
  · intro host given config a ha
    obtain ⟨p, rfl⟩ := Analyzer.exists_eq_ofPreset ha
    have he := Analyzer.ofPreset_evaluate_gains p config h
    exact ⟨he, Analyzer.analyze_sublist _ he⟩
  · intro host r before after threshold report htypes hrun
    obtain ⟨c, p, hs, rfl, v, hv, hlevel⟩ := CheckRequest.run_eq_failed_iff.1 hrun
    have hsub := Analyzer.analyze_sublist _ (Analyzer.ofPreset_evaluate_gains p c h) before after
    rw [← htypes] at hsub
    -- the other types do not matter to the configuration, the threshold and the preset
    refine ⟨_, CheckRequest.run_eq_failed_iff.2 ⟨c, p, ?_, rfl, v, hsub.subset hv, hlevel⟩, hsub⟩
    exact ⟨hs.config, hs.threshold_name, hs.preset_name, hs.workers⟩

/-- A code that breaks two rules and is exempt from one of them, for no stated reason. -/
def growingCode : TypeDecl where
  name := "GrowingCode"
  interfaces := ["Zentient.Abstractions.Codes.ICode"]
  suppressions := [{ rule := "ZNT1001A" }]

/-- The code, turned into a result as well. -/
def growingResult : TypeDecl :=
  growingCode.withInterfaces
    ["Zentient.Abstractions.Results.IResult<int>", "Zentient.Abstractions.Codes.ICode"]

/-- The result has the two violations of the code among six, and fails where the code fails. -/
theorem interface_hides_nothing_growingCode :
    ((Analyzer.ofPreset .strict {}).evaluate growingCode).Sublist
      ((Analyzer.ofPreset .strict {}).evaluate growingResult) ∧
    ((Analyzer.ofPreset .strict {}).evaluate growingCode).length = 2 ∧
    ((Analyzer.ofPreset .strict {}).evaluate growingResult).length = 6 ∧
    ∃ report, CheckRequest.run (FileTree.host {}) { types := [growingResult], preset := some "strict" } =
      .error (.failed .error report) := by
  have hgains : growingCode.Gains "Zentient.Abstractions.Results.IResult<int>" growingResult :=
    ⟨[], ["Zentient.Abstractions.Codes.ICode"], rfl, rfl⟩
  have hworkers := (FileTree.startsPools {}).givesWorkers none
  have hsettled : CheckRequest.Settled (FileTree.host {}) { types := [growingCode], preset := some "strict" } {}
      .error .strict :=
    ⟨Config.chosen_bare, rfl, rfl, hworkers⟩
  have hfails := CheckRequest.run_eq_failed_iff.2 ⟨_, _, hsettled, rfl, by
    simp only [Analyzer.mem_analyze]
    decide +kernel⟩
  obtain ⟨hbuilt, hkept, hcheck⟩ := interface_hides_nothing _ _ _ hgains
  obtain ⟨report, hreport, -⟩ := hcheck _ _ [] [] .error _ rfl hfails
  exact ⟨(hkept _ _ _ _ (hbuilt _ .strict {} hworkers)).1, by decide +kernel, by decide +kernel, report, hreport⟩

end TypeDoctrine
