import TypeDoctrine.Proofs.AnalysisOrder

/-!
# Analysing in batches

Types may be analysed in two batches and the reports joined: once the joined violations are put in order
again, the outcome is the report of all types at once. `InOrder.of_append` carries this: where violations
share a key, those of the first batch stand before those of the second in the joined list, and so they did
when all types were evaluated in turn.

What a report counts (`SameTally`) depends on its violations up to their order only, so it is right before
the violations are sorted, and the order in which types are given does not change it.
-/

namespace TypeDoctrine

/-- Two reports count alike: as many types and as many violations of each severity, the same verdict at every
threshold, and for every rule the same violations, each as often. -/
structure SameTally (r r' : Report) : Prop where
  typesChecked : r.typesChecked = r'.typesChecked
  counts : r.counts = r'.counts
  fails : ∀ threshold, r.fails threshold = r'.fails threshold
  byRule : ∀ code, (r.byRule code).Perm (r'.byRule code)

theorem Report.count_of_perm {r r' : Report} (h : r.violations.Perm r'.violations) (severity : Severity) :
    r.count severity = r'.count severity :=
  h.countP_eq _

theorem SameTally.of_perm {r r' : Report} (ht : r.typesChecked = r'.typesChecked)
    (h : r.violations.Perm r'.violations) : SameTally r r' := by
  refine ⟨ht, ?_, ?_, ?_⟩
  · unfold Report.counts
    rw [Report.count_of_perm h, Report.count_of_perm h, Report.count_of_perm h]
  · intro threshold
    exact h.any_eq
  · intro code
    exact h.filter _

/-- Parts that were put in order one by one can be put in order together. -/
theorem InOrder.of_append {xs ys xs' ys' out : List Violation} (hx : InOrder xs xs') (hy : InOrder ys ys')
    (h : InOrder (xs' ++ ys') out) : InOrder (xs ++ ys) out where
  sorted := h.sorted
  perm := h.perm.trans (hx.perm.append hy.perm)
  stable l := by
    calc out.filter (Violation.isAt l)
        = xs'.filter (Violation.isAt l) ++ ys'.filter (Violation.isAt l) := by
          rw [h.stable l, List.filter_append]
      _ = (xs ++ ys).filter (Violation.isAt l) := by
          rw [hx.stable l, hy.stable l, List.filter_append]

namespace Analyzer

variable (a : Analyzer)

theorem exists_inOrder (found : List Violation) : ∃ out, InOrder found out := by
  refine ⟨found.mergeSort precedes, ?_⟩
  rw [← stableSort_precedes_iff]
  exact stableSort_mergeSort precedes_trans precedes_total found

theorem inOrder_analyze (types : List TypeDecl) :
    InOrder (types.flatMap a.evaluate) (a.analyze types).violations :=
  (a.inOrder_analyze_iff types _).2 rfl

/-- The joined violations of two batches, in order, are those of all types at once. -/
theorem inOrder_extend_iff (first second : List TypeDecl) (out : List Violation) :
    InOrder ((a.analyze first).extend (a.analyze second)).violations out ↔
      out = (a.analyze (first ++ second)).violations := by
  have heq : ∀ {out}, InOrder ((a.analyze first).extend (a.analyze second)).violations out →
      out = (a.analyze (first ++ second)).violations := by
    intro out h
    have hall := InOrder.of_append (a.inOrder_analyze first) (a.inOrder_analyze second) h
    rw [← List.flatMap_append] at hall
    exact (a.inOrder_analyze_iff (first ++ second) out).1 hall
  constructor
  · exact heq
  · rintro rfl
    -- some list puts the joined violations in order, and there is only one candidate
    obtain ⟨out, hout⟩ := exists_inOrder ((a.analyze first).extend (a.analyze second)).violations
    rw [← heq hout]
    exact hout

theorem typesChecked_extend (first second : List TypeDecl) :
    ((a.analyze first).extend (a.analyze second)).typesChecked = (a.analyze (first ++ second)).typesChecked := by
  unfold Report.extend
  simp only [typesChecked_analyze, List.countP_append, UInt64.ofNat_add]

theorem sameTally_extend (first second : List TypeDecl) :
    SameTally ((a.analyze first).extend (a.analyze second)) (a.analyze (first ++ second)) := by
  refine .of_perm (a.typesChecked_extend first second) ?_
  exact ((a.inOrder_extend_iff first second _).2 rfl).perm.symm

theorem sameTally_of_perm {types types' : List TypeDecl} (h : types.Perm types') :
    SameTally (a.analyze types) (a.analyze types') := by
  refine .of_perm ?_ ?_
  · rw [typesChecked_analyze, typesChecked_analyze, h.countP_eq]
  · have hfound : (types.flatMap a.evaluate).Perm (types'.flatMap a.evaluate) := h.flatMap_right _
    exact ((a.inOrder_analyze types).perm.trans hfound).trans (a.inOrder_analyze types').perm.symm

/-- Two batches give the outcome of one analysis. Joining their reports and putting the violations in order
gives the report of all types and nothing else, and even before that the joined report counts what it counts.
In whatever order the types are given, the counts stay. -/
theorem analyze_inBatches :
    (∀ first second, ∃ r r' whole, a.analyzeUnless false first = .ok r ∧
      a.analyzeUnless false second = .ok r' ∧ a.analyzeUnless false (first ++ second) = .ok whole ∧
      (∀ out, InOrder (r.extend r').violations out ↔ out = whole.violations) ∧
      SameTally (r.extend r') whole) ∧
    ∀ types types', types.Perm types' → ∃ r r', a.analyzeUnless false types = .ok r ∧
      a.analyzeUnless false types' = .ok r' ∧ SameTally r r' := by
  constructor
  · intro first second
    exact ⟨_, _, _, rfl, rfl, rfl, a.inOrder_extend_iff first second, a.sameTally_extend first second⟩
  · intro types types' h
    exact ⟨_, _, rfl, rfl, a.sameTally_of_perm h⟩

/-- The second batch has a class in the file of the first, under another spelling, and before it one that sorts
first: put in order, the tied violations stand batch by batch. Given in reverse, the types count the same. -/
theorem analyze_inBatches_spellings :
    ∃ r r' whole reversed : Report, standard.analyzeUnless false [bareCode "src//Codes.cs"] = .ok r ∧
      standard.analyzeUnless false [bareCode "A.cs", bareCode "src/./Codes.cs"] = .ok r' ∧
      InOrder (r.extend r').violations whole.violations ∧
      (whole.violations.filter (Violation.isAt (bareCode "src/Codes.cs").location)).map (·.location.file) =
        ["src//Codes.cs", "src//Codes.cs", "src/./Codes.cs", "src/./Codes.cs"] ∧
      standard.analyzeUnless false [bareCode "src/./Codes.cs", bareCode "A.cs", bareCode "src//Codes.cs"] =
        .ok reversed ∧ SameTally whole reversed := by
  obtain ⟨hbatches, hperm⟩ := analyze_inBatches standard
  obtain ⟨r, r', whole, hr, hr', hwhole, hout, -⟩ :=
    hbatches [bareCode "src//Codes.cs"] [bareCode "A.cs", bareCode "src/./Codes.cs"]
  obtain ⟨q, reversed, hq, hreversed, htally⟩ := hperm
    ([bareCode "src//Codes.cs"] ++ [bareCode "A.cs", bareCode "src/./Codes.cs"])
    [bareCode "src/./Codes.cs", bareCode "A.cs", bareCode "src//Codes.cs"] (by decide +kernel)
  obtain rfl : q = whole := Except.ok.inj (hq.symm.trans hwhole)
  refine ⟨r, r', q, reversed, hr, hr', (hout _).2 rfl, ?_, hreversed, htally⟩
  obtain rfl := Except.ok.inj hwhole
  rw [(inOrder_analyze standard _).stable]
  decide +kernel

end Analyzer

end TypeDoctrine
