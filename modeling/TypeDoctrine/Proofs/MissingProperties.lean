import Mathlib.Data.List.Count
import Mathlib.Data.List.Nodup
import Mathlib.Data.Option.Basic
import TypeDoctrine.Proofs.Doctrine

/-!
# How often a missing property is reported

A table of required properties grows by calls that require one more name or several (`Extends`), and no such
call lets a name stand in the table twice. `Value` is asked for besides the table, of types that carry a
value, and there nobody looks whether the table has it already. So every name that is asked for and cannot be
read is reported, and each once, with one exception: a required `Value` that a type with a value does not
expose is reported twice (`missing_reported_once_iff`).
-/

namespace TypeDoctrine

namespace RequiredProperties

/-- `q` comes from the table `base` by calls that require these names, in order. -/
inductive Extends (base : RequiredProperties) : List String → RequiredProperties → Prop where
  | start : Extends base [] base
  | require {added q} (name : String) : Extends base added q → Extends base (added ++ [name]) (q.require name)
  | requireAll {added q} (names : List String) :
    Extends base added q → Extends base (added ++ names) (q.requireAll names)

/-- The table asks types of this kind for a value. -/
def AsksForValue (base : RequiredProperties) (s : Subject) : Prop :=
  ∃ c, base.valueCapability = some c ∧ s.has c = true

theorem any_valueCapability_iff (q : RequiredProperties) (s : Subject) :
    q.valueCapability.any s.has = true ↔ q.AsksForValue s := by
  unfold AsksForValue
  cases q.valueCapability <;> simp

instance (q : RequiredProperties) (s : Subject) : Decidable (q.AsksForValue s) :=
  decidable_of_iff _ (q.any_valueCapability_iff s)

/-- The names that are asked of a type: those of the table, those that were added, and `Value`, if the type
carries a value. -/
def AsksFor (base : RequiredProperties) (added : List String) (s : Subject) (n : String) : Prop :=
  n ∈ base.required ∨ n ∈ added ∨ n = "Value" ∧ base.AsksForValue s

/-- The property that a violation is about stands second among its arguments. -/
def propertyOf (v : Violation) : Option String :=
  v.arguments[1]?

theorem requireAll_append (q : RequiredProperties) (names names' : List String) :
    q.requireAll (names ++ names') = (q.requireAll names).requireAll names' :=
  List.foldl_append

theorem Extends.eq_requireAll {base q : RequiredProperties} {added : List String} (h : Extends base added q) :
    q = base.requireAll added := by
  induction h with
  | start => rfl
  | require name _ ih =>
    rw [requireAll_append, ← ih]
    rfl
  | requireAll names _ ih => rw [requireAll_append, ← ih]

/-! ## The tables -/

theorem nodup_required {base : RequiredProperties} (h : base ∈ all) : base.required.Nodup := by
  have hall : ∀ base ∈ all, base.required.Nodup := by decide
  exact hall base h

theorem value_notMem_required {base : RequiredProperties} (h : base ∈ all) : "Value" ∉ base.required := by
  have hall : ∀ base ∈ all, "Value" ∉ base.required := by decide
  exact hall base h

/-! ## Counting -/

section

variable {base q : RequiredProperties} {added : List String} (s : Subject) (n : String)

/-- No sequence of calls lets a name stand in a table twice. -/
theorem Extends.count_required (hbase : base ∈ all) (h : Extends base added q) :
    q.required.count n = if n ∈ base.required ∨ n ∈ added then 1 else 0 := by
  have hle : base.required.count n ≤ 1 := List.nodup_iff_count_le_one.1 (nodup_required hbase) n
  rw [h.eq_requireAll, count_requireAll]
  by_cases hb : n ∈ base.required
  · have : 0 < base.required.count n := List.count_pos_iff.2 hb
    simp only [hb, true_or, if_true]
    split <;> omega
  · have : base.required.count n = 0 := List.count_eq_zero.2 hb
    simp [hb, this]

theorem Extends.count_namesFor (hbase : base ∈ all) (h : Extends base added q) :
    (q.namesFor s).count n = (if n ∈ base.required ∨ n ∈ added then 1 else 0) +
      if n = "Value" ∧ base.AsksForValue s then 1 else 0 := by
  have hvalue : q.AsksForValue s ↔ base.AsksForValue s := by
    unfold AsksForValue
    rw [h.eq_requireAll, requireAll_valueCapability]
  unfold namesFor
  rw [List.count_append, h.count_required n hbase]
  congr 1
  by_cases hv : base.AsksForValue s
  · rw [if_pos ((q.any_valueCapability_iff s).2 (hvalue.2 hv))]
    by_cases hn : n = "Value"
    · simp [hn, hv]
    · rw [if_neg (fun hc => hn hc.1)]
      exact List.count_eq_zero.2 (by simpa using hn)
  · rw [if_neg (fun hc => hv (hvalue.1 ((q.any_valueCapability_iff s).1 hc))), if_neg (fun hc => hv hc.2)]
    rfl

theorem count_missing_of_not_exposes (hn : ¬ s.type.Exposes n) : (q.missing s).count n = (q.namesFor s).count n := by
  unfold missing
  refine List.count_filter ?_
  rw [Bool.not_eq_true', Bool.eq_false_iff]
  exact fun hc => hn ((isReadableIn_iff s n).1 hc)

theorem mem_missing_iff : n ∈ q.missing s ↔ n ∈ q.namesFor s ∧ ¬ s.type.Exposes n := by
  unfold missing
  rw [List.mem_filter, Bool.not_eq_true', Bool.eq_false_iff, ne_eq, isReadableIn_iff]

theorem Extends.mem_missing_iff (hbase : base ∈ all) (h : Extends base added q) :
    n ∈ q.missing s ↔ base.AsksFor added s n ∧ ¬ s.type.Exposes n := by
  rw [RequiredProperties.mem_missing_iff, ← List.count_pos_iff, h.count_namesFor s n hbase]
  refine and_congr_left fun _ => ?_
  unfold AsksFor
  by_cases ht : n ∈ base.required ∨ n ∈ added
  · simp only [ht, if_true]
    constructor
    · intro _
      exact ht.imp_right .inl
    · intro _
      omega
  · rw [← or_assoc, or_iff_right ht, if_neg ht]
    split <;> simp_all

theorem Extends.count_missing (hbase : base ∈ all) (h : Extends base added q) (ha : base.AsksFor added s n)
    (hn : ¬ s.type.Exposes n) :
    (q.missing s).count n = if n = "Value" ∧ n ∈ added ∧ base.AsksForValue s then 2 else 1 := by
  rw [count_missing_of_not_exposes s n hn, h.count_namesFor s n hbase]
  by_cases hv : n = "Value"
  · subst hv
    have hbase' : "Value" ∉ base.required := value_notMem_required hbase
    simp only [hbase', false_or, true_and]
    rcases ha with hb | hadded | ⟨-, hasks⟩
    · exact absurd hb hbase'
    · by_cases hasks : base.AsksForValue s <;> simp [hadded, hasks]
    · by_cases hadded : "Value" ∈ added <;> simp [hadded, hasks]
  · have hmem : n ∈ base.required ∨ n ∈ added := by
      rcases ha with hb | hadded | ⟨hvalue, -⟩
      · exact .inl hb
      · exact .inr hadded
      · exact absurd hvalue hv
    simp [hmem, hv]

/-! ## Violations -/

theorem check_toRule : q.toRule.check s = (q.missing s).map fun n => s.atType q.entry [s.type.name, n] :=
  rfl

theorem map_propertyOf_check : (q.toRule.check s).map propertyOf = (q.missing s).map some := by
  rw [check_toRule, List.map_map]
  rfl

theorem count_propertyOf_check : ((q.toRule.check s).map propertyOf).count (some n) = (q.missing s).count n := by
  rw [map_propertyOf_check]
  exact List.count_map_of_injective _ _ (Option.some_injective _) _

end

/-- However a table is extended, a check reports, at the type, the names that are asked of it and cannot be
read, and no others. Each is reported once, but `Value` twice if it was added to the table and the type is
asked for a value besides; so no name is reported twice exactly when this does not happen. -/
theorem missing_reported_once_iff {base q : RequiredProperties} (hbase : base ∈ all) {added : List String}
    (h : Extends base added q) (s : Subject) :
    (∀ v ∈ q.toRule.check s, ∃ n, v = base.entry.violation s.type.location [s.type.name, n]) ∧
    (∀ n, some n ∈ (q.toRule.check s).map propertyOf ↔ base.AsksFor added s n ∧ ¬ s.type.Exposes n) ∧
    (∀ n, base.AsksFor added s n → ¬ s.type.Exposes n → ((q.toRule.check s).map propertyOf).count (some n) =
      if n = "Value" ∧ n ∈ added ∧ base.AsksForValue s then 2 else 1) ∧
    (((q.toRule.check s).map propertyOf).Nodup ↔
      ¬ ("Value" ∈ added ∧ base.AsksForValue s ∧ ¬ s.type.Exposes "Value")) := by
  have hcount := fun n => h.count_missing s n hbase
  refine ⟨?_, ?_, ?_, ?_⟩
  · intro v hv
    obtain ⟨n, -, rfl⟩ := List.mem_map.1 hv
    refine ⟨n, ?_⟩
    rw [h.eq_requireAll]
    simp only [requireAll_entry]
    rfl
  · intro n
    rw [← h.mem_missing_iff s n hbase, map_propertyOf_check, List.mem_map_of_injective (Option.some_injective _)]
  · intro n ha hn
    rw [count_propertyOf_check, hcount n ha hn]
  · rw [map_propertyOf_check, List.nodup_map_iff (Option.some_injective _)]
    constructor
    · rintro hnodup ⟨hadded, hasks, hn⟩
      have htwo := hcount "Value" (.inr (.inl hadded)) hn
      rw [if_pos ⟨rfl, hadded, hasks⟩] at htwo
      have := List.nodup_iff_count_le_one.1 hnodup "Value"
      omega
    · intro hno
      rw [List.nodup_iff_count_le_one]
      intro n
      by_cases hmem : n ∈ q.missing s
      · obtain ⟨ha, hn⟩ := (h.mem_missing_iff s n hbase).1 hmem
        rw [hcount n ha hn, if_neg]
        rintro ⟨rfl, hadded, hasks⟩
        exact hno ⟨hadded, hasks, hn⟩
      · rw [List.count_eq_zero.2 hmem]
        omega

/-- A result that carries a value and does not expose it. -/
def valuelessResult : TypeDecl where
  name := "ValuelessResult"
  interfaces := ["Zentient.Abstractions.Results.IResult<int>"]
  properties := [.getOnly "Messages", .getOnly "Errors"]

/-- The result lacks two of the names that are asked of it, and each is reported once, although one of them was
required twice. -/
theorem missing_reported_once_iff_valuelessResult :
    ((((result.requireAll ["IsSuccess", "Errors"]).require "IsSuccess").toRule.check
      (.of .standard valuelessResult)).map propertyOf).Nodup ∧
    (((result.requireAll ["IsSuccess", "Errors"]).require "IsSuccess").toRule.check
      (.of .standard valuelessResult)).map propertyOf = [some "IsSuccess", some "Value"] := by
  have hall : result ∈ all := List.mem_cons_self
  have hextends : Extends result ([] ++ ["IsSuccess", "Errors"] ++ ["IsSuccess"])
      ((result.requireAll ["IsSuccess", "Errors"]).require "IsSuccess") := .require _ (.requireAll _ .start)
  obtain ⟨-, -, -, honce⟩ := missing_reported_once_iff hall hextends (.of .standard valuelessResult)
  refine ⟨honce.2 ?_, by decide +kernel⟩
  rintro ⟨hadded, -, -⟩
  exact absurd hadded (by decide)

/-- Required of a result with a value, `Value` is reported twice. -/
theorem value_reported_twice :
    result ∈ all ∧ Extends result ["Value"] (result.require "Value") ∧
    ((result.require "Value").toRule.check (.of .standard valuelessResult)).map propertyOf =
      [some "Value", some "Value"] := by
  refine ⟨List.mem_cons_self, .require _ .start, ?_⟩
  decide +kernel

end RequiredProperties

end TypeDoctrine
