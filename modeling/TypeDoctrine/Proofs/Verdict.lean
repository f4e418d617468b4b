import TypeDoctrine.Check
import TypeDoctrine.FileTree
import TypeDoctrine.Proofs.AnalysisOrder

/-!
# The verdict of a check

A check settles five questions in a fixed order: which configuration is used, from which severity on violations
count, which preset is meant, whether the host gives the workers that are asked for, and whether a violation of the
report counts. `CheckRequest.Decides` says what comes out when a question has no good answer and when all have one;
`run_eq_iff_decides` says that checks come out this way and no other. Later modules argue from `run_eq_ok_iff` and
`run_eq_failed_iff` and do not open the check again.

The host is any host: whatever its files, its current directory and its pools are.
-/

namespace TypeDoctrine

open TypeDoctrine.Text (decimal)

/-! ## Severities and names -/

/-- From `info` over `warning` to `error`. -/
def Severity.AtLeast (s threshold : Severity) : Prop :=
  s = threshold ∨ s = .error ∨ threshold = .info

instance (s threshold : Severity) : Decidable (s.AtLeast threshold) :=
  inferInstanceAs (Decidable (_ ∨ _))

theorem Severity.reaches_iff (s threshold : Severity) : s.reaches threshold = true ↔ s.AtLeast threshold := by
  cases s <;> cases threshold <;> decide

theorem Severity.AtLeast.trans {s t u : Severity} (h : s.AtLeast t) (h' : t.AtLeast u) : s.AtLeast u := by
  cases s <;> cases t <;> cases u <;> revert h h' <;> decide

/-- Where every value is listed and names differ, looking for a name finds the value that has it. -/
theorem find?_name_eq_some_iff {α : Type} {all : List α} {name : α → String} (hall : ∀ x, x ∈ all)
    (hinj : ∀ x y, name x = name y → x = y) (s : String) (x : α) :
    all.find? (fun y => name y == s) = some x ↔ name x = s := by
  constructor
  · intro h
    simpa using List.find?_some h
  · rintro rfl
    cases h : all.find? (fun y => name y == name x) with
    | none => exact absurd (List.find?_eq_none.1 h x (hall x)) (by simp)
    | some y =>
      have hy : name y = name x := by simpa using List.find?_some h
      rw [hinj y x hy]

theorem Severity.ofName?_eq_some_iff (name : String) (s : Severity) :
    Severity.ofName? name = some s ↔ s.name = name :=
  find?_name_eq_some_iff (by intro x; cases x <;> decide) (by intro x y; cases x <;> cases y <;> decide) name s

theorem Preset.ofName?_eq_some_iff (name : String) (p : Preset) : Preset.ofName? name = some p ↔ p.name = name :=
  find?_name_eq_some_iff (by intro x; cases x <;> decide) (by intro x y; cases x <;> cases y <;> decide) name p

/-- The name that is asked for: the one given with the request, else the configured one, else the usual one. -/
def asked (given configured : Option String) (usual : String) : String :=
  match given, configured with
  | some name, _ => name
  | none, some name => name
  | none, none => usual

/-! ## The configuration -/

namespace Path

/-- Where a file of a directory is: a slash stands between the two, which the directory may bring along. -/
def Within (directory name path : String) : Prop :=
  (directory = "" ∨ ∃ above, directory = above ++ "/") ∧ path = directory ++ name ∨
    (directory ≠ "" ∧ ∀ above, directory ≠ above ++ "/") ∧ path = directory ++ "/" ++ name

theorem getLast?_eq_slash_iff (s : String) : s.toList.getLast? = some '/' ↔ ∃ above, s = above ++ "/" := by
  rw [List.getLast?_eq_some_iff]
  constructor
  · rintro ⟨above, h⟩
    refine ⟨String.ofList above, String.toList_inj.1 ?_⟩
    rw [h, String.toList_append, String.toList_ofList]
    rfl
  · rintro ⟨above, rfl⟩
    exact ⟨above.toList, String.toList_append⟩

theorem within_join (directory name : String) : Within directory name (join directory name) := by
  unfold join
  split
  · next h =>
    simp only [Bool.or_eq_true, beq_iff_eq, getLast?_eq_slash_iff] at h
    exact .inl ⟨h, rfl⟩
  · next h =>
    simp only [Bool.or_eq_true, beq_iff_eq, getLast?_eq_slash_iff, not_or, not_exists] at h
    exact .inr ⟨h, rfl⟩

theorem within_iff (directory name path : String) : Within directory name path ↔ path = join directory name := by
  constructor
  · intro h
    -- both cases exclude the other, so a path inside the directory is the joined one
    rcases h with ⟨h, rfl⟩ | ⟨h, rfl⟩ <;> rcases within_join directory name with ⟨h', he⟩ | ⟨h', he⟩
    · exact he.symm
    · rcases h with h | ⟨above, h⟩
      · exact absurd h h'.1
      · exact absurd h (h'.2 above)
    · rcases h' with h' | ⟨above, h'⟩
      · exact absurd h' h.1
      · exact absurd h' (h.2 above)
    · exact he.symm
  · rintro rfl
    exact within_join directory name

end Path

namespace Config

/-- What reading the configuration file at a path gives. -/
inductive Loads (host : Host) (path : String) : Except ConfigError Config → Prop
  | unreadable {cause : String} : host.read path = .error cause → Loads host path (.error (.unreadable path cause))
  | malformed {text : String} : host.read path = .ok text → (∀ c, parse text ≠ .ok c) →
      Loads host path (.error .malformed)
  | loaded {text : String} {c : Config} : host.read path = .ok text → parse text = .ok c → Loads host path (.ok c)

/-- No file of this name is in the directory. -/
def Lacks (host : Host) (directory name : String) : Prop :=
  ∀ path, Path.Within directory name path → host.isFile path = false

/-- The configuration of a check: the given file, else the first candidate that is a file in the current directory,
else none. -/
inductive Chosen (host : Host) : Option String → Except ConfigError Config → Prop
  | given {path : String} {out : Except ConfigError Config} : Loads host path out → Chosen host (some path) out
  | first {directory path : String} {out : Except ConfigError Config} : host.currentDirectory = some directory →
      Path.Within directory "doctrine-lint.toml" path → host.isFile path = true → Loads host path out →
      Chosen host none out
  | second {directory path : String} {out : Except ConfigError Config} : host.currentDirectory = some directory →
      Lacks host directory "doctrine-lint.toml" → Path.Within directory ".doctrine-lint.toml" path →
      host.isFile path = true → Loads host path out → Chosen host none out
  | absent {directory : String} : host.currentDirectory = some directory →
      Lacks host directory "doctrine-lint.toml" → Lacks host directory ".doctrine-lint.toml" →
      Chosen host none (.ok {})
  | nowhere : host.currentDirectory = none → Chosen host none (.ok {})

theorem parse_eq_malformed {text : String} (h : ∀ c, parse text ≠ .ok c) : parse text = .error .malformed := by
  unfold parse at h ⊢
  split
  · next c hc => exact absurd (by rw [hc]) (h c)
  · rfl

theorem loads_iff (host : Host) (path : String) (out : Except ConfigError Config) :
    Loads host path out ↔ load host path = out := by
  constructor
  · rintro (⟨h⟩ | ⟨h, hp⟩ | ⟨h, hp⟩) <;> simp only [load, h]
    · exact parse_eq_malformed hp
    · exact hp
  · rintro rfl
    cases h : host.read path with
    | error cause =>
      simp only [load, h]
      exact .unreadable h
    | ok text =>
      simp only [load, h]
      by_cases hp : ∃ c, parse text = .ok c
      · obtain ⟨c, hc⟩ := hp
        rw [hc]
        exact .loaded h hc
      · have hp' : ∀ c, parse text ≠ .ok c := fun c hc => hp ⟨c, hc⟩
        rw [parse_eq_malformed hp']
        exact .malformed h hp'

theorem lacks_iff (host : Host) (directory name : String) :
    Lacks host directory name ↔ host.isFile (Path.join directory name) = false := by
  simp only [Lacks, Path.within_iff, forall_eq]

/-- Where the configuration of a check comes from that is given no file. -/
theorem ofCheck_none {host : Host} {directory : String} (hdir : host.currentDirectory = some directory) :
    ofCheck host none =
      if host.isFile (Path.join directory "doctrine-lint.toml") then
        load host (Path.join directory "doctrine-lint.toml")
      else if host.isFile (Path.join directory ".doctrine-lint.toml") then
        load host (Path.join directory ".doctrine-lint.toml")
      else .ok {} := by
  simp only [ofCheck, hdir, Option.bind_some, find?, candidates, List.map_cons, List.map_nil, List.find?_cons,
    List.find?_nil]
  cases host.isFile (Path.join directory "doctrine-lint.toml") with
  | true => rfl
  | false => cases host.isFile (Path.join directory ".doctrine-lint.toml") <;> rfl

theorem Chosen.ofCheck_eq {host : Host} {given : Option String} {out : Except ConfigError Config}
    (h : Chosen host given out) : ofCheck host given = out := by
  cases h with
  | given h => exact (loads_iff _ _ _).1 h
  | first hdir hin hfile h =>
    rw [Path.within_iff] at hin
    subst hin
    rw [ofCheck_none hdir, if_pos hfile, (loads_iff _ _ _).1 h]
  | second hdir hlacks hin hfile h =>
    rw [Path.within_iff] at hin
    subst hin
    rw [ofCheck_none hdir, (lacks_iff _ _ _).1 hlacks, if_pos hfile, (loads_iff _ _ _).1 h]
    rfl
  | absent hdir hlacks hlacks' =>
    rw [ofCheck_none hdir, (lacks_iff _ _ _).1 hlacks, (lacks_iff _ _ _).1 hlacks']
    rfl
  | nowhere hdir => simp only [ofCheck, hdir, Option.bind_none]

theorem chosen_ofCheck (host : Host) (given : Option String) : Chosen host given (ofCheck host given) := by
  cases given with
  | some path => exact .given ((loads_iff _ _ _).2 rfl)
  | none =>
    cases hdir : host.currentDirectory with
    | none =>
      have hnone : ofCheck host none = .ok {} := by simp only [ofCheck, hdir, Option.bind_none]
      rw [hnone]
      exact .nowhere hdir
    | some directory =>
      rw [ofCheck_none hdir]
      cases hfirst : host.isFile (Path.join directory "doctrine-lint.toml") with
      | true => exact .first hdir (Path.within_join _ _) hfirst ((loads_iff _ _ _).2 rfl)
      | false =>
        have hlacks := (lacks_iff host directory "doctrine-lint.toml").2 hfirst
        cases hsecond : host.isFile (Path.join directory ".doctrine-lint.toml") with
        | true => exact .second hdir hlacks (Path.within_join _ _) hsecond ((loads_iff _ _ _).2 rfl)
        | false => exact .absent hdir hlacks ((lacks_iff _ _ _).2 hsecond)

theorem chosen_iff (host : Host) (given : Option String) (out : Except ConfigError Config) :
    Chosen host given out ↔ ofCheck host given = out :=
  ⟨Chosen.ofCheck_eq, fun h => h ▸ chosen_ofCheck host given⟩

/-- Without files there is no configuration. -/
theorem chosen_bare : Chosen (FileTree.host {}) none (.ok {}) := by
  have hdir : (FileTree.host {}).currentDirectory = some "/" := by decide +kernel
  refine .absent hdir ?_ ?_ <;> exact (lacks_iff _ _ _).2 (by decide +kernel)

end Config

/-! ## The threshold and the preset -/

theorem asked_eq (given configured : Option String) (usual : String) :
    (given.or configured).getD usual = asked given configured usual := by
  cases given <;> cases configured <;> rfl

theorem Config.threshold_eq_ok_iff (c : Config) (given : Option String) (threshold : Severity) :
    c.threshold given = .ok threshold ↔ threshold.name = asked given c.failOn "error" := by
  unfold Config.threshold Config.severityNamed
  rw [asked_eq, ← Severity.ofName?_eq_some_iff]
  cases Severity.ofName? (asked given c.failOn "error") <;> simp

theorem Config.threshold_eq_error_iff (c : Config) (given : Option String) (e : ConfigError) :
    c.threshold given = .error e ↔
      (∀ s : Severity, s.name ≠ asked given c.failOn "error") ∧
        e = .unknownSeverity (asked given c.failOn "error") := by
  unfold Config.threshold Config.severityNamed
  simp only [asked_eq, ne_eq, ← Severity.ofName?_eq_some_iff]
  cases Severity.ofName? (asked given c.failOn "error") <;> simp [eq_comm]

theorem Preset.resolve_eq (given : Option String) (c : Config) :
    Preset.resolve given c = Preset.named (asked given c.preset "recommended") := by
  unfold Preset.resolve
  cases given <;> cases c.preset <;> rfl

theorem Preset.resolve_eq_ok_iff (given : Option String) (c : Config) (p : Preset) :
    Preset.resolve given c = .ok p ↔ p.name = asked given c.preset "recommended" := by
  rw [resolve_eq, Preset.named, ← Preset.ofName?_eq_some_iff]
  cases Preset.ofName? (asked given c.preset "recommended") <;> simp

theorem Preset.resolve_eq_error_iff (given : Option String) (c : Config) (e : ConfigError) :
    Preset.resolve given c = .error e ↔ (∀ p : Preset, p.name ≠ asked given c.preset "recommended") ∧
      e = .unknownPreset (asked given c.preset "recommended") := by
  rw [resolve_eq, Preset.named]
  simp only [ne_eq, ← Preset.ofName?_eq_some_iff]
  cases Preset.ofName? (asked given c.preset "recommended") <;> simp [eq_comm]

/-! ## Workers -/

namespace Host

/-- The host gives as many workers as are asked for. Only two or more have to be started. -/
def GivesWorkers (host : Host) (asked : Option Nat) : Prop :=
  ∀ n, asked = some n → 2 ≤ n → host.refusal n = none

/-- The host has a reason not to give the workers that are asked for. -/
def Refuses (host : Host) (asked : Option Nat) (cause : String) : Prop :=
  ∃ n, asked = some n ∧ 2 ≤ n ∧ host.refusal n = some cause

/-- The host starts every pool. -/
def StartsPools (host : Host) : Prop :=
  ∀ n, host.refusal n = none

theorem StartsPools.givesWorkers {host : Host} (h : host.StartsPools) (asked : Option Nat) :
    host.GivesWorkers asked :=
  fun n _ _ => h n

theorem StartsPools.not_refuses {host : Host} (h : host.StartsPools) (asked : Option Nat) (cause : String) :
    ¬ host.Refuses asked cause := by
  rintro ⟨n, -, -, hn⟩
  rw [h n] at hn
  cases hn

end Host

theorem FileTree.startsPools (t : FileTree) : t.host.StartsPools :=
  fun _ => rfl

namespace Execution

variable (host : Host)

theorem refusal_ofWorkers_eq_some_iff (asked : Option Nat) (cause : String) :
    (ofWorkers asked).refusal host = some cause ↔ host.Refuses asked cause := by
  match asked with
  | none => exact ⟨nofun, fun ⟨_, h, _⟩ => nomatch h⟩
  | some 0 => exact ⟨nofun, fun ⟨_, h, h', _⟩ => by cases h; omega⟩
  | some 1 => exact ⟨nofun, fun ⟨_, h, h', _⟩ => by cases h; omega⟩
  | some (n + 2) =>
    constructor
    · intro h
      exact ⟨n + 2, rfl, by omega, h⟩
    · rintro ⟨_, ⟨⟩, -, h⟩
      exact h

theorem refusal_ofWorkers_eq_none_iff (asked : Option Nat) :
    (ofWorkers asked).refusal host = none ↔ host.GivesWorkers asked := by
  rw [Option.eq_none_iff_forall_ne_some]
  simp only [ne_eq, refusal_ofWorkers_eq_some_iff, Host.Refuses, Host.GivesWorkers]
  constructor
  · intro h n hn hle
    cases hr : host.refusal n with
    | none => rfl
    | some cause => exact absurd ⟨n, hn, hle, hr⟩ (h cause)
  · rintro h cause ⟨n, hn, hle, hr⟩
    rw [h n hn hle] at hr
    cases hr

end Execution

namespace Analyzer

variable (host : Host)

theorem execution_setup (p : Preset) (c : Config) : (setup p c).execution = .ofWorkers c.parallelism :=
  rfl

theorem ofConfig_of_resolve_error {given : Option String} {c : Config} {e : ConfigError}
    (h : Preset.resolve given c = .error e) : ofConfig host given c = .error (.config e) := by
  simp only [ofConfig, h]

theorem ofConfig_of_refuses {given : Option String} {c : Config} {p : Preset} {cause : String}
    (hp : Preset.resolve given c = .ok p) (h : host.Refuses c.parallelism cause) :
    ofConfig host given c = .error (.analyzer (.threadPool cause)) := by
  rw [← Execution.refusal_ofWorkers_eq_some_iff, ← execution_setup p c] at h
  simp only [ofConfig, hp, Setup.build, h]
  rfl

theorem ofConfig_of_givesWorkers {given : Option String} {c : Config} {p : Preset}
    (hp : Preset.resolve given c = .ok p) (h : host.GivesWorkers c.parallelism) :
    ofConfig host given c = .ok (.ofPreset p c) := by
  rw [← Execution.refusal_ofWorkers_eq_none_iff, ← execution_setup p c] at h
  simp only [ofConfig, hp, Setup.build, h]
  rfl

variable {host}

/-- Every preset has an analyzer under every configuration, on a host that gives the workers for it. -/
theorem ofConfig_name {c : Config} (h : host.GivesWorkers c.parallelism) (p : Preset) :
    ofConfig host (some p.name) c = .ok (.ofPreset p c) :=
  ofConfig_of_givesWorkers host ((Preset.resolve_eq_ok_iff (some p.name) c p).2 rfl) h

/-- Every analyzer built for a configuration is that of a preset. -/
theorem exists_eq_ofPreset {given : Option String} {c : Config} {a : Analyzer}
    (h : ofConfig host given c = .ok a) : ∃ p, a = .ofPreset p c := by
  cases hp : Preset.resolve given c with
  | error e =>
    rw [ofConfig_of_resolve_error host hp] at h
    cases h
  | ok p =>
    simp only [ofConfig, hp, Setup.build] at h
    split at h
    · cases h
    · exact ⟨p, (Except.ok.inj h).symm⟩

end Analyzer

theorem Report.fails_iff (r : Report) (threshold : Severity) :
    r.fails threshold = true ↔ ∃ v ∈ r.violations, v.severity.AtLeast threshold := by
  simp only [Report.fails, List.any_eq_true, Severity.reaches_iff]

/-! ## The run -/

namespace CheckRequest

/-- The configuration, the threshold and the preset of a check that has all three, and workers for it. -/
structure Settled (host : Host) (r : CheckRequest) (c : Config) (threshold : Severity) (p : Preset) : Prop where
  config : Config.Chosen host r.configPath (.ok c)
  threshold_name : threshold.name = asked r.failOn c.failOn "error"
  preset_name : p.name = asked r.preset c.preset "recommended"
  workers : host.GivesWorkers c.parallelism

/-- What a check comes to. A question is asked only when those before it are settled. -/
inductive Decides (host : Host) (r : CheckRequest) : Except CheckError Report → Prop
  | unusable {e : ConfigError} : Config.Chosen host r.configPath (.error e) →
      Decides host r (.error (.load (.config e)))
  | unknownSeverity {c : Config} : Config.Chosen host r.configPath (.ok c) →
      (∀ s : Severity, s.name ≠ asked r.failOn c.failOn "error") →
      Decides host r (.error (.load (.config (.unknownSeverity (asked r.failOn c.failOn "error")))))
  | unknownPreset {c : Config} {threshold : Severity} : Config.Chosen host r.configPath (.ok c) →
      threshold.name = asked r.failOn c.failOn "error" →
      (∀ p : Preset, p.name ≠ asked r.preset c.preset "recommended") →
      Decides host r (.error (.load (.config (.unknownPreset (asked r.preset c.preset "recommended")))))
  | noWorkers {c : Config} {threshold : Severity} {p : Preset} {cause : String} :
      Config.Chosen host r.configPath (.ok c) → threshold.name = asked r.failOn c.failOn "error" →
      p.name = asked r.preset c.preset "recommended" → host.Refuses c.parallelism cause →
      Decides host r (.error (.load (.analyzer (.threadPool cause))))
  | passes {c : Config} {threshold : Severity} {p : Preset} {report : Report} :
      r.Settled host c threshold p → report = (Analyzer.ofPreset p c).analyze r.types →
      (∀ v ∈ report.violations, ¬ v.severity.AtLeast threshold) → Decides host r (.ok report)
  | fails {c : Config} {threshold : Severity} {p : Preset} {report : Report} :
      r.Settled host c threshold p → report = (Analyzer.ofPreset p c).analyze r.types →
      (∃ v ∈ report.violations, v.severity.AtLeast threshold) →
      Decides host r (.error (.failed threshold report))

variable {host : Host} {r : CheckRequest}

theorem settled_iff {c : Config} {threshold : Severity} {p : Preset} :
    r.Settled host c threshold p ↔ Config.ofCheck host r.configPath = .ok c ∧
      c.threshold r.failOn = .ok threshold ∧ Preset.resolve r.preset c = .ok p ∧
      host.GivesWorkers c.parallelism := by
  rw [← Config.chosen_iff, Config.threshold_eq_ok_iff, Preset.resolve_eq_ok_iff]
  exact ⟨fun h => ⟨h.config, h.threshold_name, h.preset_name, h.workers⟩,
    fun ⟨hc, ht, hp, hw⟩ => ⟨hc, ht, hp, hw⟩⟩

theorem Settled.ofConfig_eq {c : Config} {threshold : Severity} {p : Preset} (h : r.Settled host c threshold p) :
    Analyzer.ofConfig host r.preset c = .ok (.ofPreset p c) :=
  Analyzer.ofConfig_of_givesWorkers host ((Preset.resolve_eq_ok_iff _ _ _).2 h.preset_name) h.workers

/-- A settled check is judged by its report. -/
theorem Settled.run_eq {c : Config} {threshold : Severity} {p : Preset} (h : r.Settled host c threshold p) :
    r.run host = judge threshold ((Analyzer.ofPreset p c).analyze r.types) := by
  obtain ⟨hc, ht, -, -⟩ := settled_iff.1 h
  simp only [run, hc, prepare, ht, h.ofConfig_eq]
  rfl

theorem Decides.run_eq {out : Except CheckError Report} (h : r.Decides host out) : r.run host = out := by
  cases h with
  | unusable hc =>
    rw [Config.chosen_iff] at hc
    simp only [run, hc]
  | @unknownSeverity c hc hs =>
    rw [Config.chosen_iff] at hc
    have ht := (c.threshold_eq_error_iff r.failOn _).2 ⟨hs, rfl⟩
    simp only [run, hc, prepare, ht]
    rfl
  | @unknownPreset c threshold hc ht hp =>
    rw [Config.chosen_iff] at hc
    rw [← Config.threshold_eq_ok_iff] at ht
    have hbuilt := Analyzer.ofConfig_of_resolve_error host ((Preset.resolve_eq_error_iff r.preset c _).2 ⟨hp, rfl⟩)
    simp only [run, hc, prepare, ht, hbuilt]
    rfl
  | @noWorkers c threshold p cause hc ht hp hw =>
    rw [Config.chosen_iff] at hc
    rw [← Config.threshold_eq_ok_iff] at ht
    have hbuilt := Analyzer.ofConfig_of_refuses host ((Preset.resolve_eq_ok_iff r.preset c p).2 hp) hw
    simp only [run, hc, prepare, ht, hbuilt]
    rfl
  | @passes c threshold p report h hr hclear =>
    have hn : ¬ report.fails threshold = true := by
      rw [Report.fails_iff]
      rintro ⟨v, hv, hs⟩
      exact hclear v hv hs
    rw [h.run_eq, ← hr, judge, if_neg hn]
  | @fails c threshold p report h hr hhit =>
    rw [h.run_eq, ← hr, judge, if_pos ((Report.fails_iff _ _).2 hhit)]

/-- The order in which a check asks leaves no outcome open. -/
theorem decides_run (host : Host) (r : CheckRequest) : r.Decides host (r.run host) := by
  -- in every case some outcome is decided, and then it is that of the run
  have hdecided : ∀ {out}, r.Decides host out → r.Decides host (r.run host) := fun h => h.run_eq ▸ h
  cases hc : Config.ofCheck host r.configPath with
  | error e => exact hdecided (.unusable ((Config.chosen_iff _ _ _).2 hc))
  | ok c =>
    have hchosen := (Config.chosen_iff _ _ _).2 hc
    cases ht : c.threshold r.failOn with
    | error e => exact hdecided (.unknownSeverity hchosen ((c.threshold_eq_error_iff _ _).1 ht).1)
    | ok threshold =>
      have hthreshold := (c.threshold_eq_ok_iff _ _).1 ht
      cases hp : Preset.resolve r.preset c with
      | error e => exact hdecided (.unknownPreset hchosen hthreshold ((Preset.resolve_eq_error_iff _ _ _).1 hp).1)
      | ok p =>
        have hpreset := (Preset.resolve_eq_ok_iff _ _ _).1 hp
        cases hw : (Execution.ofWorkers c.parallelism).refusal host with
        | some cause =>
          rw [Execution.refusal_ofWorkers_eq_some_iff] at hw
          exact hdecided (.noWorkers hchosen hthreshold hpreset hw)
        | none =>
          rw [Execution.refusal_ofWorkers_eq_none_iff] at hw
          have hs : r.Settled host c threshold p := ⟨hchosen, hthreshold, hpreset, hw⟩
          by_cases hf : ∃ v ∈ ((Analyzer.ofPreset p c).analyze r.types).violations, v.severity.AtLeast threshold
          · exact hdecided (.fails hs rfl hf)
          · exact hdecided (.passes hs rfl fun v hv ha => hf ⟨v, hv, ha⟩)

theorem run_eq_iff_decides (out : Except CheckError Report) : r.run host = out ↔ r.Decides host out :=
  ⟨fun h => h ▸ decides_run host r, Decides.run_eq⟩

theorem run_eq_ok_iff {report : Report} : r.run host = .ok report ↔ ∃ c threshold p,
    r.Settled host c threshold p ∧ report = (Analyzer.ofPreset p c).analyze r.types ∧
      ∀ v ∈ report.violations, ¬ v.severity.AtLeast threshold := by
  rw [run_eq_iff_decides]
  constructor
  · rintro (_ | _ | _ | _ | ⟨hs, hr, hclear⟩)
    exact ⟨_, _, _, hs, hr, hclear⟩
  · rintro ⟨c, threshold, p, hs, hr, hclear⟩
    exact .passes hs hr hclear

theorem run_eq_failed_iff {threshold : Severity} {report : Report} :
    r.run host = .error (.failed threshold report) ↔ ∃ c p,
      r.Settled host c threshold p ∧ report = (Analyzer.ofPreset p c).analyze r.types ∧
        ∃ v ∈ report.violations, v.severity.AtLeast threshold := by
  rw [run_eq_iff_decides]
  constructor
  · rintro (_ | _ | _ | _ | _ | ⟨hs, hr, hhit⟩)
    exact ⟨_, _, hs, hr, hhit⟩
  · rintro ⟨c, p, hs, hr, hhit⟩
    exact .fails hs hr hhit

/-- The report that an outcome carries, whether the check passed or not. -/
def Carries (out : Except CheckError Report) (report : Report) : Prop :=
  out = .ok report ∨ ∃ threshold, out = .error (.failed threshold report)

theorem Decides.ne_analysis {out : Except CheckError Report} (h : r.Decides host out) (e : AnalyzerError) :
    out ≠ .error (.analysis e) := by
  cases h <;> exact nofun

/-- Where pools can be started, only the configuration keeps a check from having a report. -/
theorem Decides.config_or_carries {out : Except CheckError Report} (h : r.Decides host out)
    (hpools : host.StartsPools) : (∃ e, out = .error (.load (.config e))) ∨ ∃ report, Carries out report := by
  cases h with
  | unusable => exact .inl ⟨_, rfl⟩
  | unknownSeverity => exact .inl ⟨_, rfl⟩
  | unknownPreset => exact .inl ⟨_, rfl⟩
  | noWorkers _ _ _ hrefuses => exact absurd hrefuses (hpools.not_refuses _ _)
  | passes => exact .inr ⟨_, .inl rfl⟩
  | fails => exact .inr ⟨_, .inr ⟨_, rfl⟩⟩

/-- A carried report is that of the settled check, and the threshold has no part in it. -/
theorem exists_settled_of_carries {report : Report} (h : Carries (r.run host) report) :
    ∃ c threshold p, r.Settled host c threshold p ∧ report = (Analyzer.ofPreset p c).analyze r.types := by
  rcases h with h | ⟨threshold, h⟩
  · obtain ⟨c, threshold, p, hs, hr, -⟩ := run_eq_ok_iff.1 h
    exact ⟨c, threshold, p, hs, hr⟩
  · obtain ⟨c, p, hs, hr, -⟩ := run_eq_failed_iff.1 h
    exact ⟨c, threshold, p, hs, hr⟩

/-- Requests that ask for the same settle on the same. -/
theorem Settled.unique {r' : CheckRequest} {c c' : Config} {threshold threshold' : Severity} {p p' : Preset}
    (h : r.Settled host c threshold p) (h' : r'.Settled host c' threshold' p')
    (hpath : r'.configPath = r.configPath) (hpreset : r'.preset = r.preset) :
    c' = c ∧ p' = p ∧ (r'.failOn = r.failOn → threshold' = threshold) := by
  obtain ⟨hc, ht, hp, -⟩ := settled_iff.1 h
  obtain ⟨hc', ht', hp', -⟩ := settled_iff.1 h'
  rw [hpath, hc] at hc'
  obtain rfl : c = c' := Except.ok.inj hc'
  rw [hpreset, hp] at hp'
  refine ⟨rfl, (Except.ok.inj hp').symm, fun hon => ?_⟩
  rw [hon, ht] at ht'
  exact (Except.ok.inj ht').symm

end CheckRequest

/-! ## The text of a failed check -/

/-- The lines on a violation in the text of a failed check: the rule and the place, the severity and the message, what
helps, and an empty line. -/
def Violation.failureLines (v : Violation) : List String :=
  [v.rule ++ " [" ++ v.code ++ "] at " ++ v.location.file ++ ":" ++ decimal v.location.line.toNat ++ ":" ++
      decimal v.location.column.toNat,
    "  " ++ v.severity.name ++ ": " ++ v.message] ++
    (v.suggestion.toList.map fun help => "  = help: " ++ help) ++ [""]

namespace Report

/-- Lines, each of them ended. -/
def ended (lines : List String) : String :=
  String.join (lines.map (· ++ "\n"))

/-- The text of a failed check, line by line: how many violations count, these violations in order, and how many there
are of each severity. The last line is not ended. -/
def ShownAs (r : Report) (threshold : Severity) (text : String) : Prop :=
  ∃ (listed : List Violation) (errors warnings infos : Nat) (lines : List String),
    listed = r.violations.filter (fun v => decide (v.severity.AtLeast threshold)) ∧
    errors = r.violations.countP (fun v => decide (v.severity = .error)) ∧
    warnings = r.violations.countP (fun v => decide (v.severity = .warning)) ∧
    infos = r.violations.countP (fun v => decide (v.severity = .info)) ∧
    errors + warnings + infos = r.violations.length ∧
    lines = ["", "=== doctrine-lint: " ++ decimal listed.length ++ " violation(s) ===", ""] ++
      listed.flatMap Violation.failureLines ∧
    text = ended lines ++
      ("Total: " ++ decimal errors ++ " error(s), " ++ decimal warnings ++ " warning(s), " ++ decimal infos ++
        " info(s) in " ++ decimal r.typesChecked.toNat ++ " type(s)")

theorem failing_eq (r : Report) (threshold : Severity) :
    r.failing threshold = r.violations.filter (fun v => decide (v.severity.AtLeast threshold)) := by
  refine List.filter_congr fun v _ => ?_
  rw [Bool.eq_iff_iff, decide_eq_true_iff, Severity.reaches_iff]

theorem count_eq (r : Report) (severity : Severity) :
    r.count severity = r.violations.countP (fun v => decide (v.severity = severity)) := by
  refine List.countP_congr fun v _ => ?_
  rw [beq_iff_eq, decide_eq_true_iff]

/-- Every violation has one of the three severities. -/
theorem counts_add (r : Report) :
    r.count .error + r.count .warning + r.count .info = r.violations.length := by
  unfold count
  induction r.violations with
  | nil => rfl
  | cons v rest ih =>
    simp only [List.countP_cons, List.length_cons]
    cases v.severity <;> simp <;> omega

theorem ended_append (lines lines' : List String) : ended (lines ++ lines') = ended lines ++ ended lines' := by
  unfold ended
  rw [List.map_append, ← String.toList_inj]
  simp only [String.toList_append, String.toList_join, List.flatMap_append]

theorem failureText_eq (v : Violation) : failureText v = ended v.failureLines := by
  unfold failureText Violation.details Violation.failureLines Location.display ended
  cases v.suggestion <;> rw [← String.toList_inj] <;> simp

theorem join_failureText (listed : List Violation) :
    String.join (listed.map failureText) = ended (listed.flatMap Violation.failureLines) := by
  induction listed with
  | nil => rfl
  | cons v listed ih =>
    rw [List.flatMap_cons, ended_append, ← ih, ← failureText_eq, ← String.toList_inj]
    simp only [String.toList_append, String.toList_join, List.map_cons, List.flatMap_cons]

theorem failureReport_eq (r : Report) (threshold : Severity) :
    r.failureReport threshold =
      ended (["", "=== doctrine-lint: " ++ decimal (r.failing threshold).length ++ " violation(s) ===", ""] ++
        (r.failing threshold).flatMap Violation.failureLines) ++
      ("Total: " ++ decimal (r.count .error) ++ " error(s), " ++ decimal (r.count .warning) ++ " warning(s), " ++
        decimal (r.count .info) ++ " info(s) in " ++ decimal r.typesChecked.toNat ++ " type(s)") := by
  unfold failureReport summary counts
  rw [ended_append, ← join_failureText, ← String.toList_inj]
  simp [ended, String.toList_join]

theorem shownAs_failureReport (r : Report) (threshold : Severity) :
    r.ShownAs threshold (r.failureReport threshold) :=
  ⟨r.failing threshold, r.count .error, r.count .warning, r.count .info, _, r.failing_eq threshold,
    r.count_eq .error, r.count_eq .warning, r.count_eq .info, r.counts_add, rfl, r.failureReport_eq threshold⟩

end Report

/-! ## Main result -/

/-- A check comes out as `Decides` says and in no other way, and its report is that of the analyzer built for
the preset and the configuration. No analysis stops early, and where pools can be started, a check either has no usable
configuration or carries its report. A failed check shows the violations that count and adds up all of them. The
threshold has no part in the report, and what passes at one threshold passes at every higher one. -/
theorem verdict_of_check (host : Host) (r : CheckRequest) :
    (∀ out, r.run host = out ↔ r.Decides host out) ∧
    (∀ e, r.run host ≠ .error (.analysis e)) ∧
    (host.StartsPools →
      (∃ e, r.run host = .error (.load (.config e))) ∨ ∃ report, CheckRequest.Carries (r.run host) report) ∧
    (∀ c threshold p, r.Settled host c threshold p →
      Analyzer.ofConfig host r.preset c = .ok (Analyzer.ofPreset p c)) ∧
    (∀ (threshold : Severity) (report : Report),
      report.ShownAs threshold (CheckError.failed threshold report).message) ∧
    (∀ failOn report report', CheckRequest.Carries (r.run host) report →
      CheckRequest.Carries (CheckRequest.run host { r with failOn }) report' → report' = report) ∧
    ∀ failOn c threshold threshold' p report, r.Settled host c threshold p →
      CheckRequest.Settled host { r with failOn } c threshold' p → threshold'.AtLeast threshold →
      r.run host = .ok report → CheckRequest.run host { r with failOn } = .ok report := by
  refine ⟨CheckRequest.run_eq_iff_decides, ?_, ?_, fun c threshold p h => h.ofConfig_eq, ?_, ?_, ?_⟩
  · exact (CheckRequest.decides_run host r).ne_analysis
  · exact (CheckRequest.decides_run host r).config_or_carries
  · intro threshold report
    exact report.shownAs_failureReport threshold
  · intro failOn report report' h h'
    obtain ⟨c, threshold, p, hs, rfl⟩ := CheckRequest.exists_settled_of_carries h
    obtain ⟨c', threshold', p', hs', rfl⟩ := CheckRequest.exists_settled_of_carries h'
    obtain ⟨rfl, rfl, -⟩ := hs.unique hs' rfl rfl
    rfl
  · intro failOn c threshold threshold' p report hs hs' hle hrun
    obtain ⟨c', threshold₀, p', hs₀, hr, hclear⟩ := CheckRequest.run_eq_ok_iff.1 hrun
    obtain ⟨rfl, rfl, hsame⟩ := hs.unique hs₀ rfl rfl
    obtain rfl : threshold₀ = threshold := hsame rfl
    refine CheckRequest.run_eq_ok_iff.2 ⟨c', threshold', p', hs', hr, ?_⟩
    intro v hv hv'
    exact hclear v hv (hv'.trans hle)

/-- The text of a configuration that only takes note of unsealed types. -/
def notingText : String :=
  "fail_on = \"warning\"\n[rules.ZNT1001A]\nseverity = \"info\"\n"

/-- The configuration in that text. -/
def notingConfig : Config where
  failOn := some "warning"
  rules := [("ZNT1001A", { severity := some .info })]

/-- A tree with that configuration in the second place of the current directory where it is looked for and once more
elsewhere, and with one above the current directory that may not be read. -/
def notingFiles : FileTree :=
  .ofFiles ["srv", "app"]
    [("doctrine-lint.toml", .directory), (".doctrine-lint.toml", .text notingText), ("../shut.toml", .locked),
      ("/etc/noting.toml", .text notingText)]

theorem parse_notingText : Config.parse notingText = .ok notingConfig := by
  have hok : (Config.parse notingText).isOk = true := by decide +kernel
  have hfields : ∀ c ∈ (Config.parse notingText).toOption,
      c.preset = none ∧ c.failOn = some "warning" ∧ c.parallelism = none ∧ c.capabilities = [] ∧
        c.rules.map (fun s => (s.1, s.2.enabled, s.2.severity, s.2.options.length)) =
          [("ZNT1001A", none, some .info, 0)] := by
    decide +kernel
  cases h : Config.parse notingText with
  | error e =>
    rw [h] at hok
    cases hok
  | ok c =>
    rw [h] at hfields
    obtain ⟨preset, failOn, parallelism, capabilities, rules⟩ := c
    obtain ⟨rfl, rfl, rfl, rfl, hrules⟩ := hfields _ rfl
    obtain ⟨⟨key, enabled, severity, options⟩, rfl, hsection⟩ := List.map_eq_singleton_iff.1 hrules
    simp only [Prod.mk.injEq, List.length_eq_zero_iff] at hsection
    obtain ⟨rfl, rfl, rfl, rfl⟩ := hsection
    rfl

theorem chosen_notingFiles : Config.Chosen notingFiles.host none (.ok notingConfig) := by
  have hdir : notingFiles.host.currentDirectory = some "/srv/app" := by decide +kernel
  have hread : notingFiles.host.read "/srv/app/.doctrine-lint.toml" = .ok notingText := by rfl
  have hlacks := (Config.lacks_iff notingFiles.host "/srv/app" "doctrine-lint.toml").2 (by decide +kernel)
  have hin : Path.Within "/srv/app" ".doctrine-lint.toml" "/srv/app/.doctrine-lint.toml" :=
    (Path.within_iff _ _ _).2 (by decide +kernel)
  exact .second hdir hlacks hin (by decide +kernel) (.loaded hread parse_notingText)

/-- A code that is not sealed and otherwise in order. -/
def unsealedCode : TypeDecl where
  name := "UnsealedCode"
  interfaces := ["Zentient.Abstractions.Codes.ICode"]
  properties := [.getOnly "Definition"]

/-- The code, with a definition that anyone can set. -/
def settableCode : TypeDecl :=
  { unsealedCode with
    name := "SettableCode"
    properties :=
      [{ name := "Definition"
         getter := some {}
         setter := some .anyone
         location := { file := "Codes.cs", line := 7 } }] }

/-- There an unsealed code passes with one violation, at the configured threshold and at a higher one. With a setter it
fails, wherever the configuration is, and the text of the failure lists one of two violations. A configuration that may
not be read is an error, and of two unknown names that of the threshold is reported. -/
theorem verdict_of_check_noting :
    (∃ report, report.violations.length = 1 ∧
      CheckRequest.run notingFiles.host { types := [unsealedCode] } = .ok report ∧
      CheckRequest.run notingFiles.host { types := [unsealedCode], failOn := some "error" } = .ok report) ∧
    (∃ report, CheckRequest.run notingFiles.host { types := [settableCode], configPath := some "/etc/noting.toml" } =
        .error (.failed .warning report) ∧
      (CheckError.failed .warning report).message =
        "\n=== doctrine-lint: 1 violation(s) ===\n\nproperties-must-be-get-only [ZNT1001B] at Codes.cs:7:0\n" ++
          "  error: Property 'Definition' on type 'SettableCode' must be get-only\n" ++
          "  = help: Properties must be get-only\n\n" ++
          "Total: 1 error(s), 0 warning(s), 1 info(s) in 1 type(s)") ∧
    CheckRequest.run notingFiles.host { types := [], configPath := some "../shut.toml" } =
      .error (.load (.config (.unreadable "../shut.toml" "Permission denied (os error 13)"))) ∧
    CheckRequest.run notingFiles.host
        { types := [unsealedCode], preset := some "lenient", failOn := some "fatal" } =
      .error (.load (.config (.unknownSeverity "fatal"))) := by
  have hworkers := notingFiles.startsPools.givesWorkers notingConfig.parallelism
  have hs : CheckRequest.Settled notingFiles.host { types := [unsealedCode] } notingConfig .warning .recommended :=
    ⟨chosen_notingFiles, rfl, rfl, hworkers⟩
  have hs' : CheckRequest.Settled notingFiles.host { types := [unsealedCode], failOn := some "error" } notingConfig
      .error .recommended :=
    ⟨chosen_notingFiles, rfl, rfl, hworkers⟩
  refine ⟨?_, ?_, ?_, ?_⟩
  · obtain ⟨hdecides, -, -, -, -, -, hhigher⟩ := verdict_of_check notingFiles.host { types := [unsealedCode] }
    have hrun := (hdecides _).2 (.passes hs rfl (by simp only [Analyzer.mem_analyze]; decide +kernel))
    refine ⟨_, ?_, hrun, hhigher _ _ _ _ _ _ hs hs' (by decide) hrun⟩
    rw [Analyzer.analyze_eq_foldr]
    decide +kernel
  · have hread : notingFiles.host.read "/etc/noting.toml" = .ok notingText := by rfl
    have hsettled : CheckRequest.Settled notingFiles.host
        { types := [settableCode], configPath := some "/etc/noting.toml" } notingConfig .warning .recommended :=
      ⟨.given (.loaded hread parse_notingText), rfl, rfl, hworkers⟩
    refine ⟨_, ((verdict_of_check notingFiles.host _).1 _).2 (.fails hsettled rfl ?_), ?_⟩
    · simp only [Analyzer.mem_analyze]
      decide +kernel
    · rw [Analyzer.analyze_eq_foldr]
      decide +kernel
  · exact ((verdict_of_check notingFiles.host _).1 _).2 (.unusable (.given (.unreadable (by rfl))))
  · refine ((verdict_of_check notingFiles.host _).1 _).2 (.unknownSeverity chosen_notingFiles ?_)
    intro s
    cases s <;> decide

end TypeDoctrine
