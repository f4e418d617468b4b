import TypeDoctrine.Analyzer

/-!
# The rules of a preset

Under every configuration a preset holds the same rules in the same order; only the tables of required
properties change, and of these only the names. So what is to hold of all rules is shown of the fixed rules
one by one and of a table with any names (`Preset.forall_rules`).
-/

namespace TypeDoctrine

open Rules

theorem forall_shapeRules (P : Rule → Prop) :
    (∀ r ∈ Preset.shapeRules, P r) ↔
      P mustBeSealed ∧ P mustBeGetOnly ∧ P mustHideConstructors ∧ P mustHaveFactory := by
  simp only [Preset.shapeRules, List.forall_mem_cons, List.not_mem_nil, false_imp_iff, implies_true, and_true]

theorem forall_successRules (P : Rule → Prop) :
    (∀ r ∈ Preset.successRules, P r) ↔
      P successNotSettable ∧ P resultSuccessDerived ∧ P envelopeSuccessDerived := by
  simp only [Preset.successRules, List.forall_mem_cons, List.not_mem_nil, false_imp_iff, implies_true, and_true]

theorem forall_memberRules (P : Rule → Prop) :
    (∀ r ∈ Preset.memberRules, P r) ↔
      P valueIsPrivate ∧ P innerErrorsNotNull ∧ P completeError ∧ P successfulNotSettable ∧
        P successfulComputed ∧ P mustBuild ∧ P methodsChain ∧ P mustBeStateless := by
  simp only [Preset.memberRules, List.forall_mem_cons, List.not_mem_nil, false_imp_iff, implies_true, and_true]

namespace RequiredProperties

/-- Requiring more properties changes the names and nothing else. -/
theorem requireAll_eq (q : RequiredProperties) (names : List String) :
    q.requireAll names = { q with required := (q.requireAll names).required } := by
  induction names generalizing q with
  | nil => rfl
  | cons name names ih =>
    have hstep : q.require name = { q with required := (q.require name).required } := by
      unfold require
      split <;> rfl
    have hcons : q.requireAll (name :: names) = (q.require name).requireAll names := rfl
    rw [hcons, ih (q.require name), hstep]

@[simp]
theorem requireAll_entry (q : RequiredProperties) (names : List String) : (q.requireAll names).entry = q.entry :=
  (congrArg entry (q.requireAll_eq names) :)

@[simp]
theorem requireAll_capability (q : RequiredProperties) (names : List String) :
    (q.requireAll names).capability = q.capability :=
  (congrArg capability (q.requireAll_eq names) :)

@[simp]
theorem requireAll_valueCapability (q : RequiredProperties) (names : List String) :
    (q.requireAll names).valueCapability = q.valueCapability :=
  (congrArg valueCapability (q.requireAll_eq names) :)

theorem count_require (q : RequiredProperties) (name n : String) :
    (q.require name).required.count n =
      if n = name then max 1 (q.required.count n) else q.required.count n := by
  unfold require
  by_cases hmem : name ∈ q.required
  · rw [if_pos (List.contains_iff_mem.2 hmem)]
    split
    · next h =>
      have : 0 < q.required.count n := List.count_pos_iff.2 (h ▸ hmem)
      omega
    · rfl
  · rw [if_neg (mt List.contains_iff_mem.1 hmem)]
    simp only [List.count_append, List.count_singleton, beq_iff_eq]
    split
    · next h =>
      have : q.required.count n = 0 := List.count_eq_zero.2 (h ▸ hmem)
      simp [h, this]
    · next h => simp [Ne.symm h]

/-- A name that is required besides stands in the table once, or as often as it stood there before. -/
theorem count_requireAll (q : RequiredProperties) (names : List String) (n : String) :
    (q.requireAll names).required.count n =
      if n ∈ names then max 1 (q.required.count n) else q.required.count n := by
  induction names generalizing q with
  | nil => rfl
  | cons name names ih =>
    have hcons : q.requireAll (name :: names) = (q.require name).requireAll names := rfl
    rw [hcons, ih, count_require]
    by_cases hn : n = name
    · rw [if_pos hn, if_pos (List.mem_cons.2 (.inl hn))]
      split <;> omega
    · simp [hn]

end RequiredProperties

namespace Preset

/-- A table of a preset is one of the tables with more names. -/
theorem mem_requirements {p : Preset} {config : Config} {table : RequiredProperties}
    (h : table ∈ p.requirements config) : ∃ q ∈ RequiredProperties.all, ∃ names, table = q.requireAll names := by
  obtain ⟨q, hq, rfl⟩ := List.mem_map.1 h
  exact ⟨q, hq, _, rfl⟩

theorem forall_rules {P : Rule → Prop} (hshape : ∀ r ∈ shapeRules, P r) (hsuccess : ∀ r ∈ successRules, P r)
    (htable : ∀ q ∈ RequiredProperties.all, ∀ names, P (q.requireAll names).toRule)
    (hmember : ∀ r ∈ memberRules, P r) (p : Preset) (config : Config) : ∀ r ∈ p.rules config, P r := by
  intro r hr
  simp only [rules, List.mem_append] at hr
  rcases hr with ((hr | hr) | hr) | hr
  · exact hshape r hr
  · split at hr
    · exact hsuccess r hr
    · exact absurd hr List.not_mem_nil
  · obtain ⟨table, ht, rfl⟩ := List.mem_map.1 hr
    obtain ⟨q, hq, names, rfl⟩ := mem_requirements ht
    exact htable q hq names
  · split at hr
    · exact hmember r hr
    · exact absurd hr List.not_mem_nil

open Rules in
/-- Every rule of a preset is in the catalogue. -/
theorem entry_mem (p : Preset) (c : Config) : ∀ r ∈ p.rules c, r.entry ∈ Catalogue.entries := by
  refine forall_rules ?_ ?_ ?_ ?_ p c
  · rw [forall_shapeRules]
    simp [Catalogue.entries, mustBeSealed, mustBeGetOnly, mustHideConstructors, mustHaveFactory, Rule.ofCategory]
  · rw [forall_successRules]
    simp [Catalogue.entries, successNotSettable, resultSuccessDerived, envelopeSuccessDerived]
  · intro q hq names
    have hentry : (q.requireAll names).toRule.entry = q.entry := by simp [RequiredProperties.toRule]
    rw [hentry]
    revert q
    simp [RequiredProperties.all, Catalogue.entries, RequiredProperties.result, RequiredProperties.envelope,
      RequiredProperties.headeredEnvelope, RequiredProperties.streamableEnvelope, RequiredProperties.code,
      RequiredProperties.errorInfo, RequiredProperties.validationContext]
  · rw [forall_memberRules]
    simp [Catalogue.entries, valueIsPrivate, innerErrorsNotNull, completeError, successfulNotSettable,
      successfulComputed, mustBuild, methodsChain, mustBeStateless, Rule.ofCategory]

end Preset

end TypeDoctrine
