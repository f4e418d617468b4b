import Mathlib.Data.Finset.Union
import TypeDoctrine.Proofs.InterfaceGrowth

/-!
# Interfaces count as a set

A registry turns interfaces into capabilities one by one, so a list of interfaces has the capabilities of its
parts together, and neither the order of the list nor a repetition in it can be seen, in the classification or
in what is reported (`interfaces_count_as_set`).

Some rules choose their types by a category and some by a capability. The two agree as long as nobody has a
special capability, such as being the result of a value, without the general one. No marker of the standard
registry gives the one without the other, and what all markers keep (`Marker.IsClosed`), every classification
keeps.
-/

namespace TypeDoctrine

open Rules

/-! ## Sets of capabilities -/

namespace Capability

/-- The general capability that goes with a special one. -/
def general? : Capability → Option Capability
  | .resultOfValue => some .result
  | .envelopeOfValue | .headeredEnvelope | .streamableEnvelope => some .envelope
  | _ => none

/-- With every special capability the general one is there too. -/
def Closed (s : Finset Capability) : Prop :=
  ∀ x ∈ s, ∀ y, x.general? = some y → y ∈ s

end Capability

namespace Classification

variable (c : Classification)

/-- The capabilities as a set. -/
def granted : Finset Capability :=
  c.capabilities.toFinset

theorem mem_granted (x : Capability) : x ∈ c.granted ↔ c.has x = true := by
  rw [granted, List.mem_toFinset, has, List.contains_iff_mem]

/-- The categories are those of the capabilities. -/
theorem toFinset_categories : c.categories.toFinset = c.granted.biUnion fun x => x.categories.toFinset := by
  ext k
  have hk : k ∈ c.categories ↔ c.inCategory k = true := by rw [inCategory, List.contains_iff_mem]
  rw [List.mem_toFinset, hk, inCategory_iff, Finset.mem_biUnion]
  simp only [mem_granted, List.mem_toFinset]

end Classification

/-! ## What a registry grants -/

namespace Registry

variable (r : Registry)

theorem mem_granted_classifyInterfaces (l : List String) (x : Capability) :
    x ∈ (r.classifyInterfaces l).granted ↔ ∃ i ∈ l, r.Grants i x := by
  rw [Classification.mem_granted]
  exact r.has_classify { interfaces := l } x

theorem granted_append (l l' : List String) :
    (r.classifyInterfaces (l ++ l')).granted =
      (r.classifyInterfaces l).granted ∪ (r.classifyInterfaces l').granted := by
  ext x
  simp only [Finset.mem_union, mem_granted_classifyInterfaces, List.mem_append, or_and_right, exists_or]

/-- A classification is its set of capabilities, listed in their own order. -/
theorem classifyInterfaces_eq_of_granted {l l' : List String}
    (h : (r.classifyInterfaces l).granted = (r.classifyInterfaces l').granted) :
    r.classifyInterfaces l = r.classifyInterfaces l' := by
  have hmem : ∀ x, x ∈ l.flatMap r.capabilitiesOf ↔ x ∈ l'.flatMap r.capabilitiesOf := by
    intro x
    have hx := congrArg (x ∈ ·) h
    simpa only [mem_granted_classifyInterfaces, ← mem_capabilitiesOf, ← List.mem_flatMap, eq_iff_iff] using hx
  have hlist : Capability.all.filter (l.flatMap r.capabilitiesOf).contains =
      Capability.all.filter (l'.flatMap r.capabilitiesOf).contains := by
    apply List.filter_congr
    intro x _
    rw [Bool.eq_iff_iff, List.contains_iff_mem, List.contains_iff_mem]
    exact hmem x
  exact congrArg Classification.mk hlist

theorem classifyInterfaces_congr {l l' : List String} (h : ∀ i, i ∈ l ↔ i ∈ l') :
    r.classifyInterfaces l = r.classifyInterfaces l' := by
  apply r.classifyInterfaces_eq_of_granted
  ext x
  simp only [mem_granted_classifyInterfaces, h]

theorem granted_withMarkers (ms : List Marker) (l : List String) :
    (r.classifyInterfaces l).granted ⊆ ((r.withMarkers ms).classifyInterfaces l).granted := by
  intro x hx
  rw [mem_granted_classifyInterfaces] at hx ⊢
  obtain ⟨i, hi, m, hm, hgives⟩ := hx
  exact ⟨i, hi, m, List.mem_append_left ms hm, hgives⟩

end Registry

/-! ## Evaluation -/

/-- The check reads the interfaces of the type through its classification only. -/
def Rule.IgnoresInterfaces (r : Rule) : Prop :=
  ∀ (t : TypeDecl) (l : List String) (g : Registry) (c : Classification),
    r.check ⟨t.withInterfaces l, c, g⟩ = r.check ⟨t, c, g⟩

/-- A rule that loses nothing to more interfaces finds the same with other ones: exchanging them back and forth
loses nothing either. -/
theorem Rule.Persists.ignoresInterfaces {r : Rule} (h : r.Persists) : r.IgnoresInterfaces := by
  intro t l g c
  have hself : c.Within c := fun _ hx => hx
  have hforth := h.check t l g c c hself
  have hback := h.check (t.withInterfaces l) t.interfaces g c c hself
  exact hback.antisymm hforth

theorem Rule.categoryReport_ignoresInterfaces (e : RuleEntry) (args : String → Classification → List String) :
    (Rule.ofCategory e fun s => [s.atType e (args s.type.name s.classification)]).IgnoresInterfaces :=
  fun _ _ _ _ => rfl

namespace Analyzer

variable (a : Analyzer)

theorem share_withInterfaces_congr {r : Rule} (hr : r.IgnoresInterfaces) (t : TypeDecl) {l l' : List String}
    (h : a.registry.classifyInterfaces l = a.registry.classifyInterfaces l') :
    a.share (t.withInterfaces l) r = a.share (t.withInterfaces l') r := by
  have hc : a.registry.classify (t.withInterfaces l) = a.registry.classify (t.withInterfaces l') := h
  have hcheck : r.check (.of a.registry (t.withInterfaces l)) = r.check (.of a.registry (t.withInterfaces l')) := by
    unfold Subject.of
    rw [hr, hr, hc]
  have hexamines : a.examines (t.withInterfaces l) r = a.examines (t.withInterfaces l') r := by
    unfold examines
    rw [hc]
    rfl
  have hfindings : a.findings (t.withInterfaces l) r = a.findings (t.withInterfaces l') r := by
    unfold findings
    rw [hexamines, hcheck]
  unfold share
  rw [hfindings]
  rfl

theorem evaluate_withInterfaces_congr (hr : ∀ r ∈ a.rules, r.IgnoresInterfaces) (t : TypeDecl) {l l' : List String}
    (h : ∀ i, i ∈ l ↔ i ∈ l') : a.evaluate (t.withInterfaces l) = a.evaluate (t.withInterfaces l') := by
  rw [evaluate_eq_flatMap, evaluate_eq_flatMap]
  apply List.flatMap_congr
  intro r hmem
  exact a.share_withInterfaces_congr (hr r hmem) t (a.registry.classifyInterfaces_congr h)

end Analyzer

/-! ## General and special capabilities -/

/-- The marker gives no special capability without the general one. -/
def Marker.IsClosed (m : Marker) : Prop :=
  Capability.Closed m.capabilities.toFinset

theorem Registry.standard_isClosed : ∀ m ∈ Registry.standard.markers, m.IsClosed := by
  unfold Marker.IsClosed Capability.Closed
  decide +kernel

theorem Registry.granted_closed {r : Registry} (hr : ∀ m ∈ r.markers, m.IsClosed) (l : List String) :
    Capability.Closed (r.classifyInterfaces l).granted := by
  intro x hx y hy
  rw [mem_granted_classifyInterfaces] at hx ⊢
  obtain ⟨i, hi, m, hm, hname, harity, hmem⟩ := hx
  have hgeneral : y ∈ m.capabilities.toFinset := hr m hm x (List.mem_toFinset.2 hmem) y hy
  exact ⟨i, hi, m, hm, hname, harity, List.mem_toFinset.1 hgeneral⟩

/-- A category that only a general capability and its special ones lead to is met by the general one. -/
theorem Capability.Closed.inCategory_eq {c : Classification} (h : Closed c.granted) {k : Category} {x : Capability}
    (hk : ∀ y, k ∈ Capability.categories y ↔ y = x ∨ y.general? = some x) : c.inCategory k = c.has x := by
  rw [Bool.eq_iff_iff, Classification.inCategory_iff]
  constructor
  · rintro ⟨y, hy, hmem⟩
    rcases (hk y).1 hmem with rfl | hgeneral
    · exact hy
    · exact (c.mem_granted x).1 (h y ((c.mem_granted y).2 hy) x hgeneral)
  · intro hx
    exact ⟨x, hx, (hk x).2 (.inl rfl)⟩

theorem mem_resultContract (x : Capability) :
    .resultContract ∈ x.categories ↔ x = .result ∨ x.general? = some .result := by
  cases x <;> decide

theorem mem_envelopeContract (x : Capability) :
    .envelopeContract ∈ x.categories ↔ x = .envelope ∨ x.general? = some .envelope := by
  cases x <;> decide

/-- The rule with its types chosen by the category of its entry. -/
def Rule.byCategory (r : Rule) : Rule :=
  .ofCategory r.entry r.check

/-- Types of this classification are chosen alike by category and by capability. -/
structure Classification.ChosenAlike (c : Classification) : Prop where
  /-- With every special capability the general one is there too. -/
  closed : (c.has .resultOfValue = true → c.has .result = true) ∧
    (c.has .envelopeOfValue = true → c.has .envelope = true) ∧
    (c.has .headeredEnvelope = true → c.has .envelope = true) ∧
    (c.has .streamableEnvelope = true → c.has .envelope = true)
  result : c.inCategory .resultContract = c.has .result
  envelope : c.inCategory .envelopeContract = c.has .envelope
  /-- The rules on results and envelopes concern the same types if they choose them by category. -/
  rules : ∀ names, ∀ r ∈ [resultSuccessDerived, envelopeSuccessDerived,
    (RequiredProperties.result.requireAll names).toRule, (RequiredProperties.envelope.requireAll names).toRule],
    r.byCategory.applies c = r.applies c
  flag : successNotSettable.applies c = (c.inCategory .resultContract || c.inCategory .envelopeContract)

theorem Capability.Closed.chosenAlike {c : Classification} (h : Closed c.granted) : c.ChosenAlike := by
  have hresult : c.inCategory .resultContract = c.has .result := h.inCategory_eq mem_resultContract
  have henvelope : c.inCategory .envelopeContract = c.has .envelope := h.inCategory_eq mem_envelopeContract
  have hgeneral : ∀ x y, x.general? = some y → c.has x = true → c.has y = true := by
    intro x y hy hx
    exact (c.mem_granted y).1 (h x ((c.mem_granted x).2 hx) y hy)
  refine ⟨⟨hgeneral _ _ rfl, hgeneral _ _ rfl, hgeneral _ _ rfl, hgeneral _ _ rfl⟩, hresult, henvelope, ?_, ?_⟩
  · intro names
    simp only [List.forall_mem_cons, Rule.byCategory, Rule.ofCategory, RequiredProperties.toRule,
      RequiredProperties.requireAll_entry, RequiredProperties.requireAll_capability]
    exact ⟨hresult, henvelope, hresult, henvelope, List.forall_mem_nil _⟩
  · simp [successNotSettable, Classification.hasAny, hresult, henvelope]

/-! ## Main result -/

/-- Interfaces that are listed together have the capabilities of both lists, and what is reported depends on the
set of interfaces alone; categories are those of the capabilities, and more markers take none away. Where no
added marker gives a special capability without the general one, rules that choose by category and rules that
choose by capability see the same types. -/
theorem interfaces_count_as_set :
    (∀ (r : Registry) (l l' : List String), (r.classifyInterfaces (l ++ l')).granted =
      (r.classifyInterfaces l).granted ∪ (r.classifyInterfaces l').granted) ∧
    (∀ (r : Registry) (l l' : List String), (∀ i, i ∈ l ↔ i ∈ l') →
      r.classifyInterfaces l = r.classifyInterfaces l') ∧
    (∀ a : Analyzer, (∀ r ∈ a.rules, r.IgnoresInterfaces) → ∀ (t : TypeDecl) (l l' : List String),
      (∀ i, i ∈ l ↔ i ∈ l') → a.evaluate (t.withInterfaces l) = a.evaluate (t.withInterfaces l')) ∧
    (∀ (p : Preset) (config : Config), ∀ r ∈ p.rules config, r.IgnoresInterfaces) ∧
    (∀ (e : RuleEntry) (args : String → Classification → List String),
      (Rule.ofCategory e fun s => [s.atType e (args s.type.name s.classification)]).IgnoresInterfaces) ∧
    (∀ c : Classification, c.categories.toFinset = c.granted.biUnion fun x => x.categories.toFinset) ∧
    (∀ (r : Registry) (ms : List Marker) (l : List String),
      (r.classifyInterfaces l).granted ⊆ ((r.withMarkers ms).classifyInterfaces l).granted) ∧
    ∀ ms : List Marker, (∀ m ∈ ms, m.IsClosed) → ∀ l,
      ((Registry.standard.withMarkers ms).classifyInterfaces l).ChosenAlike := by
  refine ⟨Registry.granted_append, fun r _ _ => r.classifyInterfaces_congr,
    fun a hr t _ _ => a.evaluate_withInterfaces_congr hr t, ?_, Rule.categoryReport_ignoresInterfaces,
    Classification.toFinset_categories, Registry.granted_withMarkers, ?_⟩
  · intro p config r hmem
    exact (Rule.persists_of_mem_preset p config r hmem).ignoresInterfaces
  · intro ms hms l
    apply Capability.Closed.chosenAlike
    apply Registry.granted_closed
    intro m hm
    rcases List.mem_append.1 hm with hm | hm
    · exact Registry.standard_isClosed m hm
    · exact hms m hm

/-- A marker of its own beside the standard ones, and interfaces that are listed in another order and twice. -/
theorem interfaces_count_as_set_outcome :
    ((Registry.standard.withMarkers [{ name := "Acme.IOutcome", capabilities := [.resultOfValue, .result] }]
      ).classifyInterfaces ["Acme.IOutcome<int>", "Acme.IBox"]).ChosenAlike ∧
    Analyzer.standard.evaluate (growingCode.withInterfaces
        ["Zentient.Abstractions.Results.IResult<int>", "Zentient.Abstractions.Codes.ICode"]) =
      Analyzer.standard.evaluate (growingCode.withInterfaces
        ["Zentient.Abstractions.Codes.ICode", "Zentient.Abstractions.Results.IResult<int>",
          "Zentient.Abstractions.Codes.ICode"]) := by
  obtain ⟨-, -, hevaluate, hpreset, -, -, -, hchosen⟩ := interfaces_count_as_set
  constructor
  · apply hchosen
    unfold Marker.IsClosed Capability.Closed
    decide
  · apply hevaluate Analyzer.standard (hpreset .recommended {})
    simp [or_comm]

-- A marker that gives the special capability alone puts types into a category whose rules pass them over.
example :
    let r : Registry := { markers := [{ name := "Acme.IBox", capabilities := [.resultOfValue] }] }
    (r.classifyInterfaces ["Acme.IBox"]).inCategory .resultContract = true ∧
      resultSuccessDerived.applies (r.classifyInterfaces ["Acme.IBox"]) = false := by
  decide +kernel

end TypeDoctrine
