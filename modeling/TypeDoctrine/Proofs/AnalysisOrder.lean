import TypeDoctrine.Proofs.Evaluation
import TypeDoctrine.Proofs.LocationOrder
import TypeDoctrine.Proofs.StableSort

/-!
# The order of a report

An analysis lists the violations of all types in the order of their locations and leaves those that share
a location's key as they were found: type by type, and within a type rule by rule (`analyze_inOrder`).
-/

namespace TypeDoctrine

/-- Whether a violation's location has the key of `l`. -/
def Violation.isAt (l : Location) (v : Violation) : Bool :=
  decide (l.SameKey v.location)

/-- `out` holds what was found, in the order of locations: it is sorted, nothing is lost or added, and
violations whose locations have one key stand as they were found. -/
structure InOrder (found out : List Violation) : Prop where
  sorted : out.Pairwise fun v w => ¬ w.location.Before v.location
  perm : out.Perm found
  stable : ∀ l, out.filter (Violation.isAt l) = found.filter (Violation.isAt l)

/-! ## Gathering outcomes -/

namespace Report

theorem violations_foldl_add (r : Report) (found : List (List Violation)) :
    (found.foldl add r).violations = r.violations ++ found.flatten := by
  induction found generalizing r with
  | nil => simp
  | cons vs found ih => simp [ih, add]

theorem typesChecked_foldl_add (r : Report) (found : List (List Violation)) :
    (found.foldl add r).typesChecked = r.typesChecked + UInt64.ofNat found.length := by
  induction found generalizing r with
  | nil => simp
  | cons vs found ih =>
    rw [List.foldl_cons, ih, List.length_cons, Nat.add_comm, UInt64.ofNat_add, ← UInt64.add_assoc]
    rfl

theorem violations_ofOutcomes (outcomes : List (Option (List Violation))) :
    (ofOutcomes outcomes).violations = outcomes.flatMap (·.getD []) := by
  unfold ofOutcomes
  rw [violations_foldl_add]
  induction outcomes with
  | nil => rfl
  | cons outcome outcomes ih => cases outcome <;> simp_all

/-- A report counts the outcomes that there are. -/
theorem typesChecked_ofOutcomes (outcomes : List (Option (List Violation))) :
    (ofOutcomes outcomes).typesChecked = UInt64.ofNat (outcomes.countP Option.isSome) := by
  unfold ofOutcomes
  rw [typesChecked_foldl_add, List.length_filterMap_eq_countP]
  simp

end Report

/-! ## Order -/

namespace Analyzer

theorem precedes_iff (v w : Violation) : precedes v w = true ↔ ¬ w.location.Before v.location :=
  Location.order_isLE_iff v.location w.location

theorem precedes_trans (u v w : Violation) (huv : precedes u v = true) (hvw : precedes v w = true) :
    precedes u w = true :=
  Std.TransCmp.isLE_trans huv hvw

theorem precedes_total (v w : Violation) : (precedes v w || precedes w v) = true := by
  rw [Bool.or_eq_true, precedes_iff, precedes_iff, ← Location.order_eq_lt, ← Location.order_eq_lt]
  by_cases h : Location.order w.location v.location = .lt
  · exact .inr (Std.OrientedCmp.not_lt_of_lt h)
  · exact .inl h

theorem tied_precedes (v : Violation) : tied precedes v = Violation.isAt v.location := by
  funext w
  unfold Violation.isAt
  rw [Bool.eq_iff_iff, decide_eq_true_iff, ← Location.order_eq_eq]
  unfold tied precedes
  rw [Bool.and_eq_true]
  constructor
  · rintro ⟨h, h'⟩
    exact Std.OrientedCmp.isLE_antisymm h h'
  · intro h
    rw [h, Std.OrientedCmp.eq_comm.1 h]
    exact ⟨rfl, rfl⟩

/-- For violations, being in order is being the one stable sort. -/
theorem stableSort_precedes_iff (found out : List Violation) :
    StableSort precedes found out ↔ InOrder found out := by
  constructor
  · intro h
    refine ⟨h.sorted.imp fun {v w} hvw => (precedes_iff v w).1 hvw, h.perm, fun l => ?_⟩
    -- ties depend on locations alone, so any violation at `l` will do
    have hl := h.stable { code := "", rule := "", severity := .error, location := l, message := "" }
    rwa [tied_precedes] at hl
  · intro h
    refine ⟨h.sorted.imp fun {v w} hvw => (precedes_iff v w).2 hvw, h.perm, fun v => ?_⟩
    rw [tied_precedes]
    exact h.stable v.location

theorem inOrder_iff_foldr (found out : List Violation) :
    InOrder found out ↔ out = found.foldr (insertBefore precedes) [] := by
  rw [← stableSort_precedes_iff, stableSort_iff precedes_trans precedes_total,
    mergeSort_eq_foldr precedes_trans precedes_total]

instance (found out : List Violation) : Decidable (InOrder found out) :=
  decidable_of_iff _ (inOrder_iff_foldr found out).symm

theorem violations_analyze (a : Analyzer) (types : List TypeDecl) :
    (a.analyze types).violations = (types.flatMap a.evaluate).mergeSort precedes := by
  have hsorted : (a.analyze types).violations =
      (Report.ofOutcomes (types.map a.outcome?)).violations.mergeSort precedes := rfl
  rw [hsorted, Report.violations_ofOutcomes, List.flatMap_map]
  rfl

/-- Types are counted by their outcomes, and concrete classes are the types that have one. -/
theorem typesChecked_analyze (a : Analyzer) (types : List TypeDecl) :
    (a.analyze types).typesChecked = UInt64.ofNat (types.countP TypeDecl.isConcreteClass) := by
  unfold analyze
  rw [Report.typesChecked_ofOutcomes, List.countP_map]
  congr 2
  funext t
  exact a.isSome_outcome? t

/-- A report, by a computation that proofs can run. -/
theorem analyze_eq_foldr (a : Analyzer) (types : List TypeDecl) :
    a.analyze types =
      { violations := (types.flatMap a.evaluate).foldr (insertBefore precedes) []
        typesChecked := UInt64.ofNat (types.countP TypeDecl.isConcreteClass) } := by
  rw [← typesChecked_analyze a, ← mergeSort_eq_foldr precedes_trans precedes_total, ← violations_analyze]

/-- A report depends on an analyzer by what it finds in single types. -/
theorem analyze_congr {a a' : Analyzer} (h : a.evaluate = a'.evaluate) (types : List TypeDecl) :
    a.analyze types = a'.analyze types := by
  rw [analyze_eq_foldr, analyze_eq_foldr, h]

theorem inOrder_analyze_iff (a : Analyzer) (types : List TypeDecl) (out : List Violation) :
    InOrder (types.flatMap a.evaluate) out ↔ out = (a.analyze types).violations := by
  rw [← stableSort_precedes_iff, stableSort_iff precedes_trans precedes_total, violations_analyze]

/-- What is found at one key, type by type and rule by rule. -/
theorem filter_flatMap_evaluate (a : Analyzer) (types : List TypeDecl) (p : Violation → Bool) :
    (types.flatMap a.evaluate).filter p =
      types.flatMap fun t => a.rules.flatMap fun r => (a.share t r).filter p := by
  rw [List.filter_flatMap]
  congr 1
  funext t
  rw [evaluate_eq_flatMap, List.filter_flatMap]

theorem countP_isConcreteClass (types : List TypeDecl) :
    types.countP TypeDecl.isConcreteClass =
      types.countP fun t => decide (t.kind = .classType ∧ t.isAbstract = false) := by
  refine List.countP_congr fun t _ => ?_
  simp [TypeDecl.isConcreteClass]

theorem mem_analyze (a : Analyzer) (types : List TypeDecl) (v : Violation) :
    v ∈ (a.analyze types).violations ↔ v ∈ types.flatMap a.evaluate := by
  rw [violations_analyze, List.mem_mergeSort]

/-- Violations that are taken away from one type are taken away from every report. -/
theorem analyze_sublist (a : Analyzer) {t t' : TypeDecl} (h : (a.evaluate t').Sublist (a.evaluate t))
    (before after : List TypeDecl) :
    (a.analyze (before ++ t' :: after)).violations.Sublist (a.analyze (before ++ t :: after)).violations := by
  rw [violations_analyze, violations_analyze]
  refine sublist_mergeSort_of_sublist precedes_trans precedes_total ?_
  simp only [List.flatMap_append, List.flatMap_cons]
  exact (h.append_right _).append_left _

/-- An analysis that is not cancelled lists what evaluating the types in turn finds, in order, and there is
only one such list. Violations at one key stand type by type and rule by rule. It counts the classes that
are not abstract, whether or not a marker matches them. -/
theorem analyze_inOrder (a : Analyzer) (types : List TypeDecl) :
    ∃ report, a.analyzeUnless false types = .ok report ∧
      (∀ out, InOrder (types.flatMap a.evaluate) out ↔ out = report.violations) ∧
      (∀ l, report.violations.filter (Violation.isAt l) =
        types.flatMap fun t => a.rules.flatMap fun r => (a.share t r).filter (Violation.isAt l)) ∧
      report.typesChecked =
        UInt64.ofNat (types.countP fun t => decide (t.kind = .classType ∧ t.isAbstract = false)) ∧
      (types.length < UInt64.size → report.typesChecked.toNat =
        types.countP fun t => decide (t.kind = .classType ∧ t.isAbstract = false)) := by
  have horder := a.inOrder_analyze_iff types
  have hcount : (a.analyze types).typesChecked =
      UInt64.ofNat (types.countP fun t => decide (t.kind = .classType ∧ t.isAbstract = false)) := by
    rw [typesChecked_analyze, countP_isConcreteClass]
  refine ⟨a.analyze types, rfl, horder, fun l => ?_, hcount, fun hlen => ?_⟩
  · rw [((horder _).2 rfl).stable l, filter_flatMap_evaluate]
  · rw [hcount]
    exact UInt64.toNat_ofNat_of_lt' (Nat.lt_of_le_of_lt List.countP_le_length hlen)

/-- A code without a definition, declared in the file of this path. -/
def bareCode (path : String) : TypeDecl where
  name := "BareCode"
  interfaces := ["Zentient.Abstractions.Codes.ICode"]
  location := { file := path, line := 3, column := 7 }

/-- Types of two files: one in a file that sorts first, and before it two that share a file in two spellings, an
unmarked class and an abstract one. -/
def scatteredTypes : List TypeDecl :=
  [bareCode "src//Codes.cs", {}, bareCode "src/./Codes.cs", { isAbstract := true }, bareCode "lib/../lib/Codes.cs"]

/-- What is found in the last type comes first. The two spellings do not tell locations apart, so there the types keep
their order. The unmarked class is counted and the abstract one is not. -/
theorem analyze_inOrder_scatteredTypes :
    ∃ report, standard.analyzeUnless false scatteredTypes = .ok report ∧
      report.violations = [bareCode "lib/../lib/Codes.cs", bareCode "src//Codes.cs", bareCode "src/./Codes.cs"].flatMap
        standard.evaluate ∧
      report.violations.length = 6 ∧ report.typesChecked.toNat = 4 := by
  obtain ⟨report, hr, horder, -, -, hcount⟩ := analyze_inOrder standard scatteredTypes
  have hout : InOrder (scatteredTypes.flatMap standard.evaluate)
      ([bareCode "lib/../lib/Codes.cs", bareCode "src//Codes.cs", bareCode "src/./Codes.cs"].flatMap
        standard.evaluate) := by
    decide +kernel
  have hviolations := ((horder _).1 hout).symm
  refine ⟨report, hr, hviolations, ?_, (hcount (by decide)).trans (by decide)⟩
  rw [hviolations]
  decide +kernel

end Analyzer

end TypeDoctrine
