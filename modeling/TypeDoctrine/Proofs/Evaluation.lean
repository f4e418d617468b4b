import Mathlib.Data.List.Flatten
import TypeDoctrine.Analyzer

/-!
# The evaluation of one type, rule by rule

`evaluate_eq_flatMap`: the violations of a type are the shares of the rules, in the order of the rules; and
`outcome?_eq`: a type has an outcome exactly when it is a concrete class.
Whether a rule is run on a type at all (`Analyzer.examines`) and what is left of its findings
(`Analyzer.reported`) are separate questions; `Analyzer.share` joins their answers.

What is left of findings depends on the type and on the entry of the rule alone, and comes in three forms
(`reported_cases`); more findings never leave less (`reported_mono`).
-/

namespace TypeDoctrine

namespace Analyzer

variable (a : Analyzer) (t : TypeDecl) (r : Rule)

/-- Whether a rule is run on a type: the type is a concrete class that a marker matches, and the rule
concerns it and is on. -/
def examines : Bool :=
  t.isConcreteClass && !(a.registry.classify t).isEmpty && r.applies (a.registry.classify t) && a.isEnabled r

/-- What a rule finds in a type, as far as it is run. -/
def findings : List Violation :=
  if a.examines t r then r.check (Subject.of a.registry t) else []

/-- What a rule contributes to the violations of a type. -/
def share : List Violation :=
  a.reported t r (a.findings t r)

theorem reported_nil : a.reported t r [] = [] :=
  rfl

theorem share_eq_contribution (h : (t.isConcreteClass && !(a.registry.classify t).isEmpty) = true) :
    a.share t r = a.contribution (Subject.of a.registry t) r := by
  have hc : (Subject.of a.registry t).classification = a.registry.classify t := rfl
  unfold share findings examines contribution
  rw [h, Bool.true_and, hc]
  split
  · rfl
  · exact a.reported_nil t r

theorem share_eq_nil_of_skipped (h : (t.isConcreteClass && !(a.registry.classify t).isEmpty) = false) :
    a.share t r = [] := by
  unfold share findings examines
  rw [h]
  exact a.reported_nil t r

/-- A concrete class has an outcome, the shares of the rules in order, also if no marker matches it; other types have
none. -/
theorem outcome?_eq :
    a.outcome? t = if t.isConcreteClass then some (a.rules.flatMap (a.share t)) else none := by
  have hc : (Subject.of a.registry t).classification = a.registry.classify t := rfl
  unfold outcome?
  simp only [hc]
  cases ht : t.isConcreteClass with
  | false => rfl
  | true =>
    cases he : (a.registry.classify t).isEmpty with
    | true =>
      have hnil : a.rules.flatMap (a.share t) = [] :=
        List.flatMap_eq_nil_iff.2 fun r _ => a.share_eq_nil_of_skipped t r (by rw [ht, he]; rfl)
      rw [hnil]
      rfl
    | false =>
      have hshare : a.share t = a.contribution (Subject.of a.registry t) := by
        funext r
        exact a.share_eq_contribution t r (by rw [ht, he]; rfl)
      rw [hshare]
      rfl

theorem isSome_outcome? : (a.outcome? t).isSome = t.isConcreteClass := by
  rw [outcome?_eq]
  cases t.isConcreteClass <;> rfl

/-- The violations of a type are the shares of the rules, in order. -/
theorem evaluate_eq_flatMap : a.evaluate t = a.rules.flatMap (a.share t) := by
  unfold evaluate
  rw [outcome?_eq]
  cases ht : t.isConcreteClass with
  | true => rfl
  | false =>
    have hskip : (t.isConcreteClass && !(a.registry.classify t).isEmpty) = false := by rw [ht]; rfl
    exact (List.flatMap_eq_nil_iff.2 fun r _ => a.share_eq_nil_of_skipped t r hskip).symm

theorem evaluate_sublist {t t' : TypeDecl} (h : ∀ r ∈ a.rules, (a.share t' r).Sublist (a.share t r)) :
    (a.evaluate t').Sublist (a.evaluate t) := by
  rw [evaluate_eq_flatMap, evaluate_eq_flatMap]
  exact .flatMap_right a.rules h

/-! ## What is left of findings -/

/-- Whatever a rule finds in a type, all of it is left, or one warning in its place, or nothing. -/
theorem reported_cases :
    (∀ found, a.reported t r found = found.map (a.withSeverity r)) ∨
    (∀ found, a.reported t r found = if found = [] then [] else [r.missingReason t]) ∨
    ∀ found, a.reported t r found = [] := by
  unfold reported
  cases r.allowance t with
  | denied =>
    left
    intro found
    cases found <;> rfl
  | allowed reason =>
    right
    cases h : r.needsReason && reason.isNone with
    | true =>
      left
      intro found
      cases found <;> simp [h]
    | false =>
      right
      intro found
      cases found <;> simp [h]

/-- More findings never leave less, however lists are compared: as sublists, or without regard to order. -/
theorem reported_mono {le : List Violation → List Violation → Prop} (hrefl : ∀ l, le l l) (hnil : ∀ l, le [] l)
    (hempty : ∀ l, le l [] → l = []) (hmap : ∀ f l l', le l l' → le (l.map f) (l'.map f))
    {found found' : List Violation} (h : le found found') :
    le (a.reported t r found) (a.reported t r found') := by
  rcases a.reported_cases t r with hr | hr | hr
  · rw [hr, hr]
    exact hmap _ _ _ h
  · rw [hr, hr]
    by_cases hn : found = []
    · rw [if_pos hn]
      exact hnil _
    · have hn' : found' ≠ [] := by
        rintro rfl
        exact hn (hempty _ h)
      rw [if_neg hn, if_neg hn']
      exact hrefl _
  · rw [hr, hr]
    exact hrefl _

theorem reported_sublist {found found' : List Violation} (h : found.Sublist found') :
    (a.reported t r found).Sublist (a.reported t r found') :=
  a.reported_mono t r List.Sublist.refl List.nil_sublist (fun _ => List.sublist_nil.1)
    (fun f _ _ hl => hl.map f) h

/-- Analyzers that give a rule the same severity leave the same of its findings. -/
theorem reported_congr {a a' : Analyzer} {r r' : Rule} (he : r.entry = r'.entry)
    (hs : a.config.severityFor? r.code r.name = a'.config.severityFor? r'.code r'.name) :
    a.reported t r = a'.reported t r' := by
  have hcode : r.code = r'.code := congrArg RuleEntry.code he
  have hname : r.name = r'.name := congrArg RuleEntry.name he
  have hneeds : r.needsReason = r'.needsReason := by rw [Rule.needsReason, Rule.needsReason, he]
  have hallow : r.allowance t = r'.allowance t := by
    simp only [Rule.allowance, Rule.covering, hcode, hname]
  have hmissing : r.missingReason t = r'.missingReason t := by
    simp only [Rule.missingReason, hcode, hname]
  have hsev : a.withSeverity r = a'.withSeverity r' := by
    funext v
    simp only [withSeverity, hs]
  funext found
  simp only [reported, hneeds, hallow, hmissing, hsev]

/-- Analyzers with the same markers that treat a rule alike give it the same share. -/
theorem share_congr {a a' : Analyzer} (hg : a.registry = a'.registry) (he : a.isEnabled r = a'.isEnabled r)
    (hs : a.config.severityFor? r.code r.name = a'.config.severityFor? r.code r.name) :
    a.share t r = a'.share t r := by
  have hf : a.findings t r = a'.findings t r := by
    unfold findings examines
    rw [hg, he]
  unfold share
  rw [hf, reported_congr t rfl hs]

/-! ## Types without suppressions -/

theorem allowance_of_no_suppressions (h : t.suppressions = []) : r.allowance t = .denied := by
  simp [Rule.allowance, Rule.covering, h]

theorem share_of_no_suppressions (h : t.suppressions = []) :
    a.share t r = (a.findings t r).map (a.withSeverity r) := by
  unfold share reported
  rw [allowance_of_no_suppressions t r h]
  cases a.findings t r <;> rfl

/-- A type without suppressions has no violations exactly when no rule that is run finds one. -/
theorem evaluate_eq_nil_iff (h : t.suppressions = []) :
    a.evaluate t = [] ↔ ∀ r ∈ a.rules, a.findings t r = [] := by
  rw [evaluate_eq_flatMap, List.flatMap_eq_nil_iff]
  refine forall₂_congr fun r _ => ?_
  rw [share_of_no_suppressions a t r h, List.map_eq_nil_iff]

end Analyzer

end TypeDoctrine
