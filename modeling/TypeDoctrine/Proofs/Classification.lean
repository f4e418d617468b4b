import TypeDoctrine.Registry

/-!
# What a classification says

A registry grants a capability to an interface by one of its markers, and a type has the capabilities of
its interfaces. The lists behind these notions are filtered and free of repetitions; here they are read
back as plain statements about markers (`mem_capabilitiesOf`, `has_classify`, `refHas_iff`) and about
capabilities (`inCategory_iff`), and no later proof opens the lists again.
-/

namespace TypeDoctrine

theorem Capability.mem_all (c : Capability) : c ∈ Capability.all := by
  cases c <;> decide

theorem Category.mem_all (k : Category) : k ∈ Category.all := by
  cases k <;> decide

/-- A marker of the registry has the name of the interface, asks for no other number of type arguments,
and gives the capability. -/
def Registry.Grants (r : Registry) (interface : String) (c : Capability) : Prop :=
  ∃ m ∈ r.markers, m.name = (GenericName.parse interface).base ∧
    (∀ n, m.arity = some n → n = (GenericName.parse interface).arity) ∧ c ∈ m.capabilities

/-- An interface of the type has the capability. -/
def Registry.Classifies (r : Registry) (t : TypeDecl) (c : Capability) : Prop :=
  ∃ i ∈ t.interfaces, r.Grants i c

/-- A referenced type has the capability, by its own name or by an interface that it is known to have. -/
def Registry.ClassifiesRef (r : Registry) (ref : TypeRef) (c : Capability) : Prop :=
  ∃ i ∈ ref.name :: ref.interfaces, r.Grants i c

theorem Marker.matches_iff (m : Marker) (g : GenericName) :
    m.matches g = true ↔ m.name = g.base ∧ ∀ n, m.arity = some n → n = g.arity := by
  unfold Marker.matches
  cases m.arity <;> simp

namespace Registry

variable (r : Registry)

theorem mem_capabilitiesOf (interface : String) (c : Capability) :
    c ∈ r.capabilitiesOf interface ↔ r.Grants interface c := by
  simp only [capabilitiesOf, List.mem_filter, Capability.mem_all, true_and, List.contains_iff_mem,
    List.mem_flatMap, Marker.matches_iff, and_assoc]
  rfl

theorem has_classify (t : TypeDecl) (c : Capability) : (r.classify t).has c = true ↔ r.Classifies t c := by
  simp only [classify, classifyInterfaces, Classification.has, List.contains_iff_mem, List.mem_filter,
    Capability.mem_all, true_and, List.mem_flatMap, mem_capabilitiesOf]
  rfl

theorem refHas_iff (ref : TypeRef) (c : Capability) : r.refHas ref c = true ↔ r.ClassifiesRef ref c := by
  simp only [refHas, List.any_eq_true, List.contains_iff_mem, mem_capabilitiesOf]
  rfl

end Registry

namespace Classification

variable (c : Classification)

theorem inCategory_iff (k : Category) : c.inCategory k = true ↔ ∃ x, c.has x = true ∧ k ∈ x.categories := by
  simp only [inCategory, categories, has, List.contains_iff_mem, List.mem_filter, Category.mem_all, true_and,
    List.any_eq_true]

theorem hasAny_iff (l : List Capability) : c.hasAny l = true ↔ ∃ x ∈ l, c.has x = true := by
  simp only [hasAny, List.any_eq_true]

theorem has_eq_false_of_isEmpty (h : c.isEmpty = true) (x : Capability) : c.has x = false := by
  rw [isEmpty, List.isEmpty_iff] at h
  simp [has, h]

/-- A category is met by one of the capabilities that lead to it. -/
theorem inCategory_iff_of {k : Category} {l : List Capability} (h : ∀ x, k ∈ Capability.categories x ↔ x ∈ l) :
    c.inCategory k = true ↔ ∃ x ∈ l, c.has x = true := by
  rw [inCategory_iff]
  constructor
  · rintro ⟨x, hx, hk⟩
    exact ⟨x, (h x).1 hk, hx⟩
  · rintro ⟨x, hl, hx⟩
    exact ⟨x, hx, (h x).2 hl⟩

end Classification

end TypeDoctrine
