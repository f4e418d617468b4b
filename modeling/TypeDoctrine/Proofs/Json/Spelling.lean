import Mathlib.Data.List.Forall2
import Mathlib.Data.List.Nodup
import TypeDoctrine.Json.Record

/-!
# Spellings of a value

A record can be written in many ways that mean the same: its members in any order, fields with a default left
out, and members added that no reader asks for. `RespellsRecord fields j j'` says that `j'` is such a way of
writing `j`, given for each field its name, the value that may be left out, and the ways of writing its value
in turn; so records in records may be written anew too.

`ReadsBack write respells read` says that `read` gives `x` back from every spelling of `write x`. It is shown
of strings, booleans, counts and names, and passed on to arrays (`ReadsBack.list`) and to values that may be
null (`ReadsBack.nullable`). For a record (`ReadsBack.record`) it follows field by field: a reader finds each
field in a spelling of it, or not at all (`RespellsRecord.exists_fields`), and `ReadsBack.required?` and
`ReadsBack.optional?` say what it makes of that.
-/

namespace TypeDoctrine.Json

/-! ## Records -/

/-- A field of a record: its name, the value with which it may be left out, and the ways of writing its
value. -/
structure FieldForm where
  name : String
  default : Option Json := none
  respells : Json → Json → Prop := Eq

/-- Members written anew, one for each field in order: a value in one of its spellings, or left out if it is
the default. -/
inductive Rewrites : List FieldForm → List (String × Json) → List (String × Json) → Prop where
  | nil : Rewrites [] [] []
  | keep {form fields v v' members members'} : form.respells v v' → Rewrites fields members members' →
    Rewrites (form :: fields) ((form.name, v) :: members) ((form.name, v') :: members')
  | drop {form fields v members members'} : form.default = some v → Rewrites fields members members' →
    Rewrites (form :: fields) ((form.name, v) :: members) members'

/-- A null, a boolean or a string. -/
inductive IsScalar : Json → Prop where
  | null : IsScalar .null
  | bool (b : Bool) : IsScalar (.bool b)
  | string (s : String) : IsScalar (.string s)

/-- `j'` is the record `j` with its members written anew, members of unknown names added to them, and all in
any order. -/
def RespellsRecord (fields : List FieldForm) (j j' : Json) : Prop :=
  ∃ members members' kept extra, j = .object members ∧ j' = .object members' ∧ Rewrites fields members kept ∧
    (∀ m ∈ extra, m.1 ∉ fields.map (·.name) ∧ IsScalar m.2) ∧ members'.Perm (kept ++ extra)

theorem Rewrites.refl {fields : List FieldForm} {members : List (String × Json)}
    (h : List.Forall₂ (fun form m => m.1 = form.name ∧ form.respells m.2 m.2) fields members) :
    Rewrites fields members members := by
  induction h with
  | nil => exact .nil
  | @cons form m _ _ hm _ ih =>
    obtain ⟨name, v⟩ := m
    obtain ⟨rfl, hv⟩ := hm
    exact .keep hv ih

theorem Rewrites.respellsRecord {fields : List FieldForm} {members kept : List (String × Json)}
    (h : Rewrites fields members kept) : RespellsRecord fields (.object members) (.object kept) := by
  refine ⟨members, kept, kept, [], rfl, rfl, h, ?_, ?_⟩
  · simp
  · simp

/-- The members that are kept and those that are added, from the last to the first. -/
theorem Rewrites.respellsRecord_reverse {fields : List FieldForm} {members kept : List (String × Json)}
    (h : Rewrites fields members kept) (extra : List (String × Json))
    (hextra : ∀ m ∈ extra, m.1 ∉ fields.map (·.name) ∧ IsScalar m.2) :
    RespellsRecord fields (.object members) (.object (kept ++ extra).reverse) :=
  ⟨_, _, _, _, rfl, rfl, h, hextra, List.reverse_perm _⟩

theorem Rewrites.names_sublist {fields : List FieldForm} {members kept : List (String × Json)}
    (h : Rewrites fields members kept) : (kept.map (·.1)).Sublist (fields.map (·.name)) := by
  induction h with
  | nil => exact .slnil
  | keep _ _ ih => exact ih.cons_cons _
  | drop _ _ ih => exact ih.cons _

/-- What a reader finds of a field whose value is `v`: nothing, if `v` may be left out, or a spelling
of it. -/
def Finds (f : Fields) (form : FieldForm) (v : Json) : Prop :=
  f form.name = none ∧ form.default = some v ∨ ∃ v', f form.name = some v' ∧ form.respells v v'

theorem Rewrites.finds {fields : List FieldForm} {members kept : List (String × Json)} {f : Fields}
    (h : Rewrites fields members kept) (hnodup : (fields.map (·.name)).Nodup)
    (hkept : ∀ m ∈ kept, f m.1 = some m.2)
    (hleft : ∀ n ∈ fields.map (·.name), n ∉ kept.map (·.1) → f n = none) :
    List.Forall₂ (fun form m => Finds f form m.2) fields members := by
  induction h with
  | nil => exact .nil
  | @keep form fields v v' members kept hv _ ih =>
    rw [List.map_cons, List.nodup_cons] at hnodup
    rw [List.forall_mem_cons] at hkept
    refine .cons (.inr ⟨v', hkept.1, hv⟩) (ih hnodup.2 hkept.2 ?_)
    intro n hn hmem
    refine hleft n (List.mem_cons_of_mem _ hn) ?_
    rw [List.map_cons, List.mem_cons, not_or]
    refine ⟨?_, hmem⟩
    rintro rfl
    exact hnodup.1 hn
  | @drop form fields v members kept hd hrest ih =>
    rw [List.map_cons, List.nodup_cons] at hnodup
    have hnone : f form.name = none := by
      refine hleft form.name List.mem_cons_self ?_
      intro hmem
      exact hnodup.1 (hrest.names_sublist.subset hmem)
    refine .cons (.inl ⟨hnone, hd⟩) (ih hnodup.2 hkept ?_)
    intro n hn
    exact hleft n (List.mem_cons_of_mem _ hn)

/-! ## Looking up members -/

theorem lookup_eq_some_of_mem {members : List (String × Json)} {n : String} {v : Json}
    (hone : atMostOnce members n = true) (h : (n, v) ∈ members) : members.lookup n = some v := by
  induction members with
  | nil => exact absurd h List.not_mem_nil
  | cons m members ih =>
    unfold atMostOnce at hone ih
    rw [decide_eq_true_iff] at hone ih
    by_cases hm : m.1 = n
    · rw [List.countP_cons_of_pos (by simp [hm])] at hone
      have hnone : ∀ m ∈ members, ¬ (m.1 == n) = true := List.countP_eq_zero.1 (by omega)
      rcases List.mem_cons.1 h with rfl | h
      · simp
      · exact absurd (beq_self_eq_true n) (hnone _ h)
    · rw [List.countP_cons_of_neg (by simp [hm])] at hone
      rcases List.mem_cons.1 h with rfl | h
      · exact absurd rfl hm
      · rw [List.lookup_cons, beq_eq_false_iff_ne.2 (Ne.symm hm)]
        exact ih hone h

theorem lookup_eq_none_of_notMem {members : List (String × Json)} {n : String}
    (h : n ∉ members.map (·.1)) : members.lookup n = none := by
  rw [List.lookup_eq_none_iff]
  intro m hm
  rw [bne_iff_ne]
  rintro rfl
  exact h (List.mem_map_of_mem hm)

theorem filter_ne_of_notMem {members : List (String × Json)} {n : String} (h : n ∉ members.map (·.1)) :
    members.filter (·.1 != n) = members := by
  rw [List.filter_eq_self]
  intro m hm
  rw [bne_iff_ne]
  rintro rfl
  exact h (List.mem_map_of_mem hm)

/-- Every spelling of a record has its fields for a reader. -/
theorem RespellsRecord.exists_fields {fields : List FieldForm} {members : List (String × Json)} {j : Json}
    (h : RespellsRecord fields (.object members) j) (hnodup : (fields.map (·.name)).Nodup) :
    ∃ f, j.fields? (fields.map (·.name)) = some f ∧
      List.Forall₂ (fun form m => Finds f form m.2) fields members := by
  obtain ⟨_, members', kept, extra, hj, rfl, hrewrites, hextra, hperm⟩ := h
  obtain rfl := Json.object.inj hj
  have hkept : (kept.map (·.1)).Nodup := hnodup.sublist hrewrites.names_sublist
  have hother : ∀ n ∈ fields.map (·.name), n ∉ extra.map (·.1) := by
    intro n hn hmem
    obtain ⟨m, hm, rfl⟩ := List.mem_map.1 hmem
    exact (hextra m hm).1 hn
  -- a field occurs among the kept members only, and there once
  have hone : ∀ n ∈ fields.map (·.name), atMostOnce members' n = true := by
    intro n hn
    have hcount : members'.countP (·.1 == n) = (kept.map (·.1)).count n + (extra.map (·.1)).count n := by
      rw [hperm.countP_eq, List.countP_append, List.count_eq_countP, List.count_eq_countP, List.countP_map,
        List.countP_map]
      rfl
    rw [atMostOnce, decide_eq_true_iff, hcount, List.count_eq_zero.2 (hother n hn)]
    exact List.nodup_iff_count_le_one.1 hkept n
  refine ⟨fun n => members'.lookup n, ?_, hrewrites.finds hnodup ?_ ?_⟩
  · rw [fields?, if_pos]
    rw [List.all_eq_true]
    exact hone
  · intro m hm
    refine lookup_eq_some_of_mem (hone m.1 ?_) (hperm.mem_iff.2 (List.mem_append_left _ hm))
    exact hrewrites.names_sublist.subset (List.mem_map_of_mem hm)
  · intro n hn hleft
    refine lookup_eq_none_of_notMem ?_
    rw [(hperm.map (·.1)).mem_iff, List.map_append, List.mem_append, not_or]
    exact ⟨hleft, hother n hn⟩

theorem fields?_of_subset {names names' : List String} {members : List (String × Json)} {f : Fields}
    (h : (Json.object members).fields? names = some f) (hsub : names' ⊆ names) :
    (Json.object members).fields? names' = some f := by
  rw [fields?] at h ⊢
  split at h
  · next hall =>
    rw [List.all_eq_true] at hall
    rw [if_pos]
    · exact h
    · rw [List.all_eq_true]
      exact fun n hn => hall n (hsub hn)
  · exact absurd h (by simp)

/-! ## Parts of a spelling -/

section

variable {form : FieldForm} {fields : List FieldForm} {members kept : List (String × Json)} {v j : Json}

/-- Without its first field, a spelling of a record is one of the record without that field. -/
theorem RespellsRecord.tail (h : RespellsRecord (form :: fields) (.object ((form.name, v) :: members)) j)
    (hnodup : form.name ∉ fields.map (·.name)) :
    ∃ members', j = .object members' ∧
      RespellsRecord fields (.object members) (.object (members'.filter (·.1 != form.name))) := by
  obtain ⟨_, members', kept, extra, hj, rfl, hrewrites, hextra, hperm⟩ := h
  obtain rfl := Json.object.inj hj
  have hother : ∀ m ∈ extra, m.1 ∉ fields.map (·.name) ∧ IsScalar m.2 := by
    intro m hm
    exact ⟨fun hmem => (hextra m hm).1 (List.mem_cons_of_mem _ hmem), (hextra m hm).2⟩
  have hextra' : extra.filter (·.1 != form.name) = extra := by
    refine filter_ne_of_notMem ?_
    intro hmem
    obtain ⟨m, hm, heq⟩ := List.mem_map.1 hmem
    exact (hextra m hm).1 (heq ▸ List.mem_cons_self)
  have hkept : ∀ {kept}, Rewrites fields members kept → kept.filter (·.1 != form.name) = kept :=
    fun hrest => filter_ne_of_notMem fun hmem => hnodup (hrest.names_sublist.subset hmem)
  have hperm' := hperm.filter (·.1 != form.name)
  rw [List.filter_append, hextra'] at hperm'
  refine ⟨members', rfl, ?_⟩
  cases hrewrites with
  | keep _ hrest =>
    rw [List.filter_cons_of_neg (by simp), hkept hrest] at hperm'
    exact ⟨_, _, _, _, rfl, rfl, hrest, hother, hperm'⟩
  | drop _ hrest =>
    rw [hkept hrest] at hperm'
    exact ⟨_, _, _, _, rfl, rfl, hrest, hother, hperm'⟩

theorem Rewrites.forall_mem {P : Json → Prop} (h : Rewrites fields members kept)
    (hfields : ∀ form ∈ fields, ∀ v v', form.respells v v' → P v → P v') (hmembers : ∀ m ∈ members, P m.2) :
    ∀ m ∈ kept, P m.2 := by
  induction h with
  | nil => exact hmembers
  | keep hv _ ih =>
    rw [List.forall_mem_cons] at hfields hmembers ⊢
    exact ⟨hfields.1 _ _ hv hmembers.1, ih hfields.2 hmembers.2⟩
  | drop _ _ ih =>
    rw [List.forall_mem_cons] at hfields hmembers
    exact ih hfields.2 hmembers.2

/-- What holds of scalars and is kept by every field holds of all members of a spelling. -/
theorem RespellsRecord.forall_mem {P : Json → Prop} {members' : List (String × Json)}
    (h : RespellsRecord fields (.object members) (.object members'))
    (hfields : ∀ form ∈ fields, ∀ v v', form.respells v v' → P v → P v') (hmembers : ∀ m ∈ members, P m.2)
    (hscalar : ∀ v, IsScalar v → P v) : ∀ m ∈ members', P m.2 := by
  obtain ⟨_, _, kept, extra, hj, hj', hrewrites, hextra, hperm⟩ := h
  obtain rfl := Json.object.inj hj
  obtain rfl := Json.object.inj hj'
  intro m hm
  rcases List.mem_append.1 (hperm.mem_iff.1 hm) with hm | hm
  · exact hrewrites.forall_mem hfields hmembers m hm
  · exact hscalar m.2 (hextra m hm).2

end

/-! ## Readers -/

/-- A reader gives back what was written, from every spelling of it, and what was written is one of them. -/
structure ReadsBack {α : Type} (write : α → Json) (respells : Json → Json → Prop) (read : Json → Option α) :
    Prop where
  refl : ∀ x, respells (write x) (write x)
  reads : ∀ x j, respells (write x) j → read j = some x

section

variable {α : Type} {write : α → Json} {respells : Json → Json → Prop} {read : Json → Option α}

theorem ReadsBack.read_write (h : ReadsBack write respells read) (x : α) : read (write x) = some x :=
  h.reads x _ (h.refl x)

theorem ReadsBack.ofEq (h : ∀ x, read (write x) = some x) : ReadsBack write Eq read where
  refl _ := rfl
  reads x j hj := by
    subst hj
    exact h x

/-- A record is read back if its reader gives the record from whatever it finds of the fields. -/
theorem ReadsBack.record {fields : List FieldForm} {members : α → List (String × Json)}
    {rest : Fields → Option α} (hnodup : (fields.map (·.name)).Nodup)
    (hrefl : ∀ x, List.Forall₂ (fun form m => m.1 = form.name ∧ form.respells m.2 m.2) fields (members x))
    (hrest : ∀ x f, List.Forall₂ (fun form m => Finds f form m.2) fields (members x) → rest f = some x) :
    ReadsBack (fun x => .object (members x)) (RespellsRecord fields)
      (fun j => j.fields? (fields.map (·.name)) >>= rest) where
  refl x := (Rewrites.refl (hrefl x)).respellsRecord
  reads x j hj := by
    obtain ⟨f, hf, hfinds⟩ := hj.exists_fields hnodup
    rw [hf]
    exact hrest x f hfinds

theorem ReadsBack.required? (hr : ReadsBack write respells read) {f : Fields} {name : String} {x : α}
    (h : Finds f ⟨name, none, respells⟩ (write x)) : f.required? name read = some x := by
  rcases h with ⟨-, hd⟩ | ⟨v, hv, hspell⟩
  · exact absurd hd (by simp)
  · simp only [Fields.required?, hv, Option.bind_some]
    exact hr.reads x v hspell

theorem ReadsBack.optional? (hr : ReadsBack write respells read) (d : α) {f : Fields} {name : String} {x : α}
    (h : Finds f ⟨name, some (write d), respells⟩ (write x)) : f.optional? name d read = some x := by
  rcases h with ⟨hnone, hd⟩ | ⟨v, hv, hspell⟩
  · have hdx : read (write d) = read (write x) := congrArg read (Option.some.inj hd)
    rw [hr.read_write, hr.read_write] at hdx
    simp only [Fields.optional?, hnone]
    exact hdx
  · simp only [Fields.optional?, hv]
    exact hr.reads x v hspell

/-- Arrays item by item, in order. -/
def RespellsList (respells : Json → Json → Prop) (j j' : Json) : Prop :=
  ∃ items items', j = .array items ∧ j' = .array items' ∧ List.Forall₂ respells items items'

theorem ReadsBack.mapM (h : ReadsBack write respells read) {xs : List α} {items : List Json}
    (hitems : List.Forall₂ respells (xs.map write) items) : items.mapM read = some xs := by
  induction xs generalizing items with
  | nil =>
    obtain rfl := List.forall₂_nil_left_iff.1 hitems
    rfl
  | cons x xs ih =>
    obtain ⟨v, rest, hv, hrest, rfl⟩ := List.forall₂_cons_left_iff.1 hitems
    rw [List.mapM_cons, h.reads x v hv, ih hrest]
    rfl

theorem ReadsBack.list (h : ReadsBack write respells read) :
    ReadsBack (ofList write) (RespellsList respells) (listOf? read) where
  refl xs := by
    refine ⟨_, _, rfl, rfl, ?_⟩
    rw [List.forall₂_map_left_iff, List.forall₂_map_right_iff, List.forall₂_same]
    exact fun x _ => h.refl x
  reads xs j hj := by
    obtain ⟨items, items', hitems, rfl, hspell⟩ := hj
    obtain rfl := Json.array.inj hitems
    exact h.mapM hspell

/-- Null stays null, and any other value is written anew. -/
def RespellsNullable (respells : Json → Json → Prop) (j j' : Json) : Prop :=
  j = .null ∧ j' = .null ∨ j ≠ .null ∧ respells j j'

theorem nullable?_of_ne_null {j : Json} (h : j ≠ .null) : nullable? read j = (read j).map some := by
  cases j <;> first | rfl | exact absurd rfl h

theorem ReadsBack.nullable (h : ReadsBack write respells read) (hnull : read .null = none) :
    ReadsBack (ofOption write) (RespellsNullable respells) (nullable? read) := by
  have hne : ∀ {x j}, read j = some x → j ≠ .null := by
    rintro x _ hx rfl
    rw [hnull] at hx
    exact absurd hx (by simp)
  constructor
  · intro o
    cases o with
    | none => exact .inl ⟨rfl, rfl⟩
    | some x => exact .inr ⟨hne (h.read_write x), h.refl x⟩
  · intro o j hj
    cases o with
    | none =>
      rcases hj with ⟨-, rfl⟩ | ⟨hj, -⟩
      · rfl
      · exact absurd rfl hj
    | some x =>
      rcases hj with ⟨hj, -⟩ | ⟨-, hj⟩
      · exact absurd hj (hne (h.read_write x))
      · have hx := h.reads x j hj
        rw [nullable?_of_ne_null (hne hx), hx, Option.map_some]

end

theorem readsBack_string : ReadsBack .string Eq string? :=
  .ofEq fun _ => rfl

theorem readsBack_bool : ReadsBack .bool Eq bool? :=
  .ofEq fun _ => rfl

theorem readsBack_count : ReadsBack ofCount Eq count? := by
  refine .ofEq fun n => ?_
  have hn : n.toNat < UInt64.size := n.toNat_lt
  show (if n.toNat < UInt64.size then some (UInt64.ofNat n.toNat) else none) = some n
  rw [if_pos hn, UInt64.ofNat_toNat]

theorem readsBack_tag {α : Type} {name : α → String} {ofName? : String → Option α}
    (h : ∀ a, ofName? (name a) = some a) : ReadsBack (fun a => .string (name a)) Eq (tag? ofName?) :=
  .ofEq h

/-- Lists of strings are written in one way. -/
theorem readsBack_strings : ReadsBack ofStrings Eq (listOf? string?) :=
  .ofEq fun ss => readsBack_string.list.read_write ss

end TypeDoctrine.Json
