import Mathlib.Data.List.Forall2
import Mathlib.Data.List.Nodup
import TypeDoctrine.Proofs.Evaluation
import TypeDoctrine.Proofs.PresetRules
import TypeDoctrine.Proofs.Verdict

/-!
# Configuration is local

A configuration is asked about a rule in three places: for the names of its table, for whether it is on, and
for its severity. Each time the answer comes from the section that counts for the rule (`Config.effective`). So
two configurations that agree on a rule give it the same share of every type, whatever they say of others, and
a section that counts for no rule can be deleted (`config_isLocal`). The sections of which a warning says that
they have no effect are of this kind, and so is a section under the code of a rule that has one under its name.
-/

namespace TypeDoctrine

/-! ## Sections -/

theorem lookup_filter_ne {β : Type} (key n : String) (l : List (String × β)) :
    (l.filter fun s => s.1 != key).lookup n = if n = key then none else l.lookup n := by
  induction l with
  | nil => simp
  | cons s l ih =>
    obtain ⟨k, x⟩ := s
    by_cases hk : k = key
    · rw [List.filter_cons_of_neg (by simp [hk]), ih, List.lookup_cons]
      by_cases hn : n = key
      · simp [hn]
      · have hnk : (n == k) = false := by simp [hk, hn]
        simp [hn, hnk]
    · rw [List.filter_cons_of_pos (by simp [hk]), List.lookup_cons, List.lookup_cons, ih]
      by_cases hn : n = k
      · simp [hn, hk]
      · have hnk : (n == k) = false := by simp [hn]
        simp [hnk]

namespace Config

/-- The section that counts for a rule: the one under its exact name, else the one under its exact code. -/
def effective (c : Config) (e : RuleEntry) : Option RuleSection :=
  (c.rules.lookup e.name).or (c.rules.lookup e.code)

/-- The configurations say the same of a rule. A rule of which nothing is said is on, keeps its severity and
requires no further properties. -/
structure AgreeOn (c c' : Config) (e : RuleEntry) : Prop where
  enabled : ((c.effective e).bind (·.enabled)).getD true = ((c'.effective e).bind (·.enabled)).getD true
  severity : (c.effective e).bind (·.severity) = (c'.effective e).bind (·.severity)
  additional : ((c.effective e).map (·.strings "additional-properties")).getD [] =
    ((c'.effective e).map (·.strings "additional-properties")).getD []

/-- The configuration without the section under a key. -/
def without (c : Config) (key : String) : Config :=
  { c with rules := c.rules.filter fun s => s.1 != key }

theorem sectionFor?_eq (c : Config) (e : RuleEntry) : c.sectionFor? e.code e.name = c.effective e := by
  unfold sectionFor? effective
  cases c.rules.lookup e.name <;> rfl

theorem agreeOn_of_effective_eq {c c' : Config} {e : RuleEntry} (h : c.effective e = c'.effective e) :
    c.AgreeOn c' e where
  enabled := by rw [h]
  severity := by rw [h]
  additional := by rw [h]

/-- A deleted section makes no difference to a rule unless it is the one that counted. -/
theorem effective_without {c : Config} {key : String} {e : RuleEntry} (hname : e.name ≠ key)
    (hcode : e.code = key → (c.rules.lookup e.name).isSome = true) :
    (c.without key).effective e = c.effective e := by
  have hl : ∀ n, (c.without key).rules.lookup n = if n = key then none else c.rules.lookup n :=
    fun n => lookup_filter_ne key n c.rules
  unfold effective
  rw [hl, hl, if_neg hname]
  split
  · next h =>
    obtain ⟨s, hs⟩ := Option.isSome_iff_exists.1 (hcode h)
    simp [hs]
  · rfl

end Config

/-! ## Rules -/

theorem Preset.additional_eq (c : Config) (q : RequiredProperties) :
    Preset.additional c q = ((c.effective q.entry).map (·.strings "additional-properties")).getD [] := by
  unfold Preset.additional
  rw [Config.sectionFor?_eq]
  cases c.effective q.entry <;> rfl

/-- The rules have one entry, and are the same rule if the configurations agree on it. -/
def Rule.Counterparts (c c' : Config) (r r' : Rule) : Prop :=
  r.entry = r'.entry ∧ (c.AgreeOn c' r.entry → r = r')

/-- Under two configurations a preset holds counterparts, in the same order. -/
theorem Preset.rules_counterparts (p : Preset) (c c' : Config) :
    List.Forall₂ (Rule.Counterparts c c') (p.rules c) (p.rules c') := by
  have hfixed : ∀ l : List Rule, List.Forall₂ (Rule.Counterparts c c') l l :=
    fun l => List.forall₂_same.2 fun r _ => ⟨rfl, fun _ => rfl⟩
  -- of all rules only the tables are built from the configuration
  have htables : List.Forall₂ (Rule.Counterparts c c')
      ((p.requirements c).map RequiredProperties.toRule) ((p.requirements c').map RequiredProperties.toRule) := by
    simp only [requirements, List.map_map, List.forall₂_map_left_iff, List.forall₂_map_right_iff]
    refine List.forall₂_same.2 fun q _ => ⟨by simp [RequiredProperties.toRule], fun h => ?_⟩
    have hentry : (q.requireAll (p.demands q ++ additional c q)).toRule.entry = q.entry := by
      simp [RequiredProperties.toRule]
    have hadditional : additional c q = additional c' q := by
      rw [additional_eq, additional_eq]
      exact (hentry ▸ h).additional
    simp only [Function.comp_apply, hadditional]
  unfold rules
  exact List.rel_append (List.rel_append (List.rel_append (hfixed _) (hfixed _)) htables) (hfixed _)

/-! ## Shares -/

namespace Analyzer

variable {c c' : Config} (p : Preset)

theorem share_of_agreeOn (hm : c.capabilities = c'.capabilities) {r : Rule} (h : c.AgreeOn c' r.entry)
    (t : TypeDecl) : (ofPreset p c).share t r = (ofPreset p c').share t r := by
  refine share_congr t r ?_ ?_ ?_
  · have hg : ∀ d, (ofPreset p d).registry = (Registry.standard.withMarkers d.capabilities).withMarkers [] :=
      fun _ => rfl
    rw [hg, hg, hm]
  · have he : ∀ d, (ofPreset p d).isEnabled r = ((d.effective r.entry).bind (·.enabled)).getD true := by
      intro d
      rw [← Config.sectionFor?_eq]
      rfl
    rw [he, he]
    exact h.enabled
  · have hs : ∀ d, (ofPreset p d).config.severityFor? r.code r.name = (d.effective r.entry).bind (·.severity) := by
      intro d
      rw [← Config.sectionFor?_eq]
      rfl
    rw [hs, hs]
    exact h.severity

theorem share_of_counterparts (hm : c.capabilities = c'.capabilities) {r r' : Rule}
    (h : Rule.Counterparts c c' r r') (ha : c.AgreeOn c' r.entry) (t : TypeDecl) :
    (ofPreset p c).share t r = (ofPreset p c').share t r' := by
  obtain rfl := h.2 ha
  exact share_of_agreeOn p hm ha t

/-- Configurations that agree on all rules of the catalogue lead to the same violations. -/
theorem evaluate_of_agreeOn (hm : c.capabilities = c'.capabilities)
    (h : ∀ e ∈ Catalogue.entries, c.AgreeOn c' e) : (ofPreset p c).evaluate = (ofPreset p c').evaluate := by
  funext t
  rw [evaluate_eq_flatMap, evaluate_eq_flatMap]
  have hrules : ∀ {l l' : List Rule}, List.Forall₂ (Rule.Counterparts c c') l l' →
      (∀ r ∈ l, r.entry ∈ Catalogue.entries) →
      l.flatMap ((ofPreset p c).share t) = l'.flatMap ((ofPreset p c').share t) := by
    intro l l' hl
    induction hl with
    | nil => exact fun _ => rfl
    | @cons r r' l l' hr _ ih =>
      intro hmem
      rw [List.forall_mem_cons] at hmem
      rw [List.flatMap_cons, List.flatMap_cons, ih hmem.2,
        share_of_counterparts p hm hr (h r.entry hmem.1) t]
  exact hrules (p.rules_counterparts c c') (p.entry_mem c)

/-- The report on types of the analyzer that is built for a configuration. -/
def reportOn (host : Host) (given : Option String) (c : Config) (types : List TypeDecl) : Except LoadError Report :=
  (ofConfig host given c).map (·.analyze types)

theorem reportOn_without {key : String} (h : ∀ e ∈ Catalogue.entries, (c.without key).effective e = c.effective e)
    (host : Host) (given : Option String) (types : List TypeDecl) :
    reportOn host given (c.without key) types = reportOn host given c types := by
  -- the preset and the workers are asked for outside the sections
  have hresolve : Preset.resolve given (c.without key) = Preset.resolve given c := rfl
  unfold reportOn
  cases hp : Preset.resolve given c with
  | error e => rw [ofConfig_of_resolve_error host hp, ofConfig_of_resolve_error host (hresolve.trans hp)]
  | ok p =>
    cases hw : (Execution.ofWorkers c.parallelism).refusal host with
    | some cause =>
      rw [Execution.refusal_ofWorkers_eq_some_iff] at hw
      rw [ofConfig_of_refuses host hp hw, ofConfig_of_refuses host (hresolve.trans hp) hw]
    | none =>
      rw [Execution.refusal_ofWorkers_eq_none_iff] at hw
      rw [ofConfig_of_givesWorkers host hp hw, ofConfig_of_givesWorkers host (hresolve.trans hp) hw]
      have he : (ofPreset p (c.without key)).evaluate = (ofPreset p c).evaluate :=
        evaluate_of_agreeOn p rfl fun e hmem => Config.agreeOn_of_effective_eq (h e hmem)
      exact congrArg Except.ok (analyze_congr he types)

/-! ## Warnings -/

/-- The warning that the section under a key has no effect. -/
def ineffective (key : String) : LogEvent where
  level := .warn
  message := "Unknown rule `" ++ key ++ "` in config; it has no effect"

theorem ineffective_inj {key key' : String} (h : ineffective key = ineffective key') : key = key' := by
  have hm : "Unknown rule `" ++ key ++ "` in config; it has no effect" =
      "Unknown rule `" ++ key' ++ "` in config; it has no effect" := congrArg LogEvent.message h
  have hl := congrArg String.toList hm
  simp only [String.toList_append] at hl
  exact String.toList_inj.1 (List.append_cancel_left (List.append_cancel_right hl))

/-- A section is reported as having no effect exactly when its key is neither the code nor the name of a rule. -/
theorem ineffective_mem_configLog (given : Option String) (c : Config) (key : String) :
    ineffective key ∈ configLog given c ↔
      key ∈ c.rules.map (·.1) ∧ ∀ e ∈ Catalogue.entries, e.code ≠ key ∧ e.name ≠ key := by
  have hwarnings : sectionWarnings c =
      (((c.rules.map (·.1)).filter fun k => !Catalogue.hasKey k).mergeSort keyPrecedes).map ineffective := rfl
  have hkey : (!Catalogue.hasKey key) = true ↔ ∀ e ∈ Catalogue.entries, e.code ≠ key ∧ e.name ≠ key := by
    simp [Catalogue.hasKey]
  have hlast : ineffective key ∈ configLog given c ↔ ineffective key ∈ sectionWarnings c := by
    unfold configLog
    cases Preset.resolve given c <;> simp [ineffective]
  rw [hlast, hwarnings, ← hkey]
  simp only [List.mem_map, List.mem_mergeSort, List.mem_filter]
  constructor
  · rintro ⟨k, hk, he⟩
    rwa [ineffective_inj he] at hk
  · intro h
    exact ⟨key, h, rfl⟩

end Analyzer

/-! ## Main result -/

/-- No code is the name of a rule or the code of another rule. -/
theorem Catalogue.code_unique {e e' : RuleEntry} (he : e ∈ entries) (he' : e' ∈ entries) :
    e'.name ≠ e.code ∧ (e'.code = e.code → e' = e) := by
  have hcodes : (entries.map RuleEntry.code).Nodup := by decide +kernel
  have hnames : ∀ code ∈ entries.map RuleEntry.code, ∀ name ∈ entries.map RuleEntry.name, name ≠ code := by
    decide +kernel
  exact ⟨hnames _ (List.mem_map_of_mem he) _ (List.mem_map_of_mem he'),
    List.inj_on_of_nodup_map hcodes he' he⟩

/-- Configuration is local to the rule it names. Two configurations with the same markers give a preset the
same rules one by one, and where they agree on a rule, its share of every type is the same. Deleting a section
that is reported as having no effect, as exactly those under a key of no rule are, leaves every report as it
was; so does deleting the section under the code of a rule that has one under its name. -/
theorem config_isLocal :
    (∀ (p : Preset) (c c' : Config), c.capabilities = c'.capabilities →
      (∀ host : Host, host.GivesWorkers c.parallelism →
        Analyzer.ofConfig host (some p.name) c = .ok (.ofPreset p c)) ∧
      (∀ host : Host, host.GivesWorkers c'.parallelism →
        Analyzer.ofConfig host (some p.name) c' = .ok (.ofPreset p c')) ∧
      (∀ t, (Analyzer.ofPreset p c).evaluate t = (p.rules c).flatMap ((Analyzer.ofPreset p c).share t)) ∧
      (∀ t, (Analyzer.ofPreset p c').evaluate t = (p.rules c').flatMap ((Analyzer.ofPreset p c').share t)) ∧
      List.Forall₂ (fun r r' => r.entry = r'.entry ∧ (c.AgreeOn c' r.entry →
        ∀ t, (Analyzer.ofPreset p c).share t r = (Analyzer.ofPreset p c').share t r')) (p.rules c) (p.rules c')) ∧
    (∀ given c key, Analyzer.ineffective key ∈ Analyzer.configLog given c ↔
      key ∈ c.rules.map (·.1) ∧ ∀ e ∈ Catalogue.entries, e.code ≠ key ∧ e.name ≠ key) ∧
    (∀ given c key, Analyzer.ineffective key ∈ Analyzer.configLog given c →
      ∀ host types, Analyzer.reportOn host given (c.without key) types = Analyzer.reportOn host given c types) ∧
    ∀ given (c : Config), ∀ e ∈ Catalogue.entries, (c.rules.lookup e.name).isSome = true →
      ∀ host types, Analyzer.reportOn host given (c.without e.code) types = Analyzer.reportOn host given c types := by
  refine ⟨?_, Analyzer.ineffective_mem_configLog, ?_, ?_⟩
  · intro p c c' hm
    refine ⟨fun host hw => Analyzer.ofConfig_name hw p, fun host hw => Analyzer.ofConfig_name hw p,
      Analyzer.evaluate_eq_flatMap _, Analyzer.evaluate_eq_flatMap _, ?_⟩
    refine (p.rules_counterparts c c').imp fun r r' h => ⟨h.1, fun ha t => ?_⟩
    exact Analyzer.share_of_counterparts p hm h ha t
  · intro given c key hkey host types
    have hnone := ((Analyzer.ineffective_mem_configLog given c key).1 hkey).2
    refine Analyzer.reportOn_without (fun e he => ?_) host given types
    exact Config.effective_without (hnone e he).2 fun hcode => absurd hcode (hnone e he).1
  · intro given c e he hname host types
    refine Analyzer.reportOn_without (fun e' he' => ?_) host given types
    obtain ⟨hne, hsame⟩ := Catalogue.code_unique he he'
    exact Config.effective_without hne fun hcode => hsame hcode ▸ hname

/-- Three sections that look like those of one rule. Only the one under its name counts. -/
def layeredConfig : Config where
  rules :=
    [("znt1001a", { enabled := some false }), ("ZNT1001A", { enabled := some false }),
      ("concrete-type-must-be-sealed", { severity := some .warning })]

/-- A code that is neither sealed nor closed to assignment. -/
def openCode : TypeDecl where
  name := "OpenCode"
  interfaces := ["Zentient.Abstractions.Codes.ICode"]
  properties := [{ Property.getOnly "Definition" with setter := some .anyone }]

/-- The section counts for the one rule and not for the next; the other two can be deleted, but it cannot. -/
theorem config_isLocal_layeredConfig :
    (∀ t, (Analyzer.ofPreset .recommended layeredConfig).share t Rules.mustBeGetOnly =
      (Analyzer.ofPreset .recommended {}).share t Rules.mustBeGetOnly) ∧
    (∀ host, Analyzer.reportOn host none (layeredConfig.without "znt1001a") [openCode] =
      Analyzer.reportOn host none layeredConfig [openCode]) ∧
    (∀ host, Analyzer.reportOn host none (layeredConfig.without "ZNT1001A") [openCode] =
      Analyzer.reportOn host none layeredConfig [openCode]) ∧
    (Analyzer.ofPreset .recommended (layeredConfig.without "concrete-type-must-be-sealed")).evaluate openCode ≠
      (Analyzer.ofPreset .recommended layeredConfig).evaluate openCode := by
  obtain ⟨hshare, hwarned, hunknown, hcode⟩ := config_isLocal
  refine ⟨?_, ?_, ?_, by decide +kernel⟩
  · obtain ⟨-, -, -, -, hrules⟩ := hshare .recommended layeredConfig {} rfl
    have hpair : (Rules.mustBeGetOnly, Rules.mustBeGetOnly) ∈
        (Preset.rules .recommended layeredConfig).zip (Preset.rules .recommended {}) := .tail _ (.head _)
    exact ((List.forall₂_iff_zip.1 hrules).2 hpair).2 ⟨by decide, by decide, by decide⟩
  · intro host
    exact hunknown none layeredConfig "znt1001a" ((hwarned _ _ _).2 (by decide +kernel)) host _
  · intro host
    exact hcode none layeredConfig Rules.sealedEntry (.head _) (by decide) host _

end TypeDoctrine
