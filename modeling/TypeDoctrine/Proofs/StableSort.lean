/-!
# Stable sorting

What it means that a list is put in order without disturbing elements that are tied (`StableSort`), that
merge sort does so and that there is only one way to do it (`stableSort_mergeSort`,
`StableSort.eq`), and that leaving out elements before sorting leaves them out of the sorted list
(`sublist_mergeSort_of_sublist`). The order is any total preorder, given as a Boolean function. Sorting by
insertion gives the same list (`mergeSort_eq_foldr`), by a computation that proofs can run.
-/

namespace TypeDoctrine

variable {α : Type} {le : α → α → Bool}

/-- Neither element has to stand before the other. -/
def tied (le : α → α → Bool) (a b : α) : Bool :=
  le a b && le b a

/-- `out` is `l` put in order: it is sorted, nothing is lost or added, and tied elements keep their
order. -/
structure StableSort (le : α → α → Bool) (l out : List α) : Prop where
  sorted : out.Pairwise fun a b => le a b = true
  perm : out.Perm l
  stable : ∀ a, out.filter (tied le a) = l.filter (tied le a)

section Order

variable (trans : ∀ a b c, le a b = true → le b c = true → le a c = true)
variable (total : ∀ a b, (le a b || le b a) = true)

include total in
theorem tied_self (a : α) : tied le a a = true := by
  have h := total a a
  rw [Bool.or_self] at h
  simp [tied, h]

include trans in
/-- The elements tied with one element are tied with each other. -/
theorem pairwise_filter_tied (a : α) (l : List α) :
    (l.filter (tied le a)).Pairwise fun x y => le x y = true := by
  refine List.pairwise_of_forall_mem_list fun x hx y hy => ?_
  have hx := (List.mem_filter.1 hx).2
  have hy := (List.mem_filter.1 hy).2
  simp only [tied, Bool.and_eq_true] at hx hy
  exact trans x a y hx.2 hy.1

include trans total in
theorem stableSort_mergeSort (l : List α) : StableSort le l (l.mergeSort le) where
  sorted := List.pairwise_mergeSort trans total l
  perm := List.mergeSort_perm l le
  stable a := by
    -- what is tied with `a` is sorted as it stands, so it survives as a sublist of the right length
    have hs : (l.filter (tied le a)).Sublist (l.mergeSort le) :=
      List.sublist_mergeSort trans total (pairwise_filter_tied trans a l) List.filter_sublist
    have hf := hs.filter (tied le a)
    simp only [List.filter_filter, Bool.and_self] at hf
    exact (hf.eq_of_length ((List.mergeSort_perm l le).filter _).length_eq.symm).symm

include total in
/-- Sorted lists that agree on every class of tied elements are equal. -/
theorem eq_of_filter_tied {xs ys : List α} (hx : xs.Pairwise fun a b => le a b = true)
    (hy : ys.Pairwise fun a b => le a b = true)
    (h : ∀ a, xs.filter (tied le a) = ys.filter (tied le a)) : xs = ys := by
  have hmem : ∀ {us vs : List α}, (∀ a, us.filter (tied le a) = vs.filter (tied le a)) →
      ∀ {a}, a ∈ us → a ∈ vs := by
    intro us vs h a ha
    have : a ∈ us.filter (tied le a) := List.mem_filter.2 ⟨ha, tied_self total a⟩
    rw [h a] at this
    exact (List.mem_filter.1 this).1
  induction xs generalizing ys with
  | nil =>
    cases ys with
    | nil => rfl
    | cons y ys => exact absurd (hmem (fun a => (h a).symm) List.mem_cons_self) List.not_mem_nil
  | cons x xs ih =>
    cases ys with
    | nil => exact absurd (hmem h List.mem_cons_self) List.not_mem_nil
    | cons y ys =>
      have hle : ∀ {b : α} {bs : List α}, ((b :: bs).Pairwise fun a b => le a b = true) →
          ∀ {c}, c ∈ b :: bs → le b c = true := by
        intro b bs hb c hc
        rcases List.mem_cons.1 hc with rfl | hc
        · have := total c c
          rwa [Bool.or_self] at this
        · exact (List.pairwise_cons.1 hb).1 c hc
      -- each head stands first among all, so the heads are tied and hence the same
      have hxy : le x y = true := hle hx (hmem (fun a => (h a).symm) List.mem_cons_self)
      have hyx : le y x = true := hle hy (hmem h List.mem_cons_self)
      have hhead := h x
      rw [List.filter_cons_of_pos (tied_self total x), List.filter_cons_of_pos (by simp [tied, hxy, hyx])]
        at hhead
      obtain rfl : x = y := (List.cons.inj hhead).1
      refine congrArg (x :: ·) (ih (List.pairwise_cons.1 hx).2 (List.pairwise_cons.1 hy).2 fun a => ?_)
      have ha := h a
      rw [List.filter_cons, List.filter_cons] at ha
      split at ha
      · exact (List.cons.inj ha).2
      · exact ha

include total in
/-- There is only one way to put a list in order. -/
theorem StableSort.eq {l out out' : List α} (h : StableSort le l out) (h' : StableSort le l out') : out = out' :=
  eq_of_filter_tied total h.sorted h'.sorted fun a => (h.stable a).trans (h'.stable a).symm

include trans total in
theorem stableSort_iff (l out : List α) : StableSort le l out ↔ out = l.mergeSort le := by
  constructor
  · intro h
    exact h.eq total (stableSort_mergeSort trans total l)
  · rintro rfl
    exact stableSort_mergeSort trans total l

include trans total in
/-- Of a sorted list, the elements that stand before an inserted one are those that it does not precede. -/
theorem mergeSort_cons_split (a : α) (l : List α) :
    (a :: l).mergeSort le =
      (l.mergeSort le).filter (fun b => !le a b) ++ a :: (l.mergeSort le).filter (fun b => le a b) := by
  obtain ⟨u, v, hc, hl, hu⟩ := List.mergeSort_cons trans total a l
  have hs := List.pairwise_mergeSort trans total (a :: l)
  rw [hc] at hs
  have hv : ∀ b ∈ v, le a b = true := (List.pairwise_cons.1 (List.pairwise_append.1 hs).2.1).1
  have hu' : ∀ b ∈ u, (!le a b) = true := hu
  have hu'' : ∀ b ∈ u, ¬ le a b = true := fun b hb => by simpa using hu b hb
  have hv' : ∀ b ∈ v, ¬ (!le a b) = true := fun b hb => by simp [hv b hb]
  rw [hc, hl, List.filter_append, List.filter_append, List.filter_eq_self.2 hu', List.filter_eq_self.2 hv,
    List.filter_eq_nil_iff.2 hv', List.filter_eq_nil_iff.2 hu'', List.append_nil, List.nil_append]

/-- Puts an element before those that it may precede. -/
def insertBefore (le : α → α → Bool) (a : α) (l : List α) : List α :=
  l.filter (fun b => !le a b) ++ a :: l.filter (fun b => le a b)

include trans total in
theorem mergeSort_eq_foldr (l : List α) : l.mergeSort le = l.foldr (insertBefore le) [] := by
  induction l with
  | nil => exact List.mergeSort_nil
  | cons a l ih =>
    rw [mergeSort_cons_split trans total, ih]
    rfl

include trans total in
/-- Leaving out elements before sorting leaves them out of the sorted list. -/
theorem sublist_mergeSort_of_sublist {l l' : List α} (h : l'.Sublist l) :
    (l'.mergeSort le).Sublist (l.mergeSort le) := by
  induction h with
  | slnil => exact .refl _
  | @cons l' l a _ ih =>
    obtain ⟨u, v, hc, hl, -⟩ := List.mergeSort_cons trans total a l
    rw [hl] at ih
    rw [hc]
    exact ih.trans ((List.sublist_cons_self a v).append_left u)
  | @cons_cons l' l a _ ih =>
    rw [mergeSort_cons_split trans total a l', mergeSort_cons_split trans total a l]
    exact (ih.filter _).append ((ih.filter _).cons_cons a)

end Order

end TypeDoctrine
