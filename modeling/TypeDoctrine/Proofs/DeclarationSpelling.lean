import TypeDoctrine.Codec.Declaration
import TypeDoctrine.Proofs.Json.Spelling

/-!
# Spellings of a declaration

`Respells` of each part of a declaration says which fields may be left out and what is written in their place;
`readsBack` that the part's reader gives the part back from every spelling. Both follow the parts from the
location up to the type, where `TypeDecl.ofJson?_respelled` is the whole of it.

The body of a getter is read in another way than the rest: the reader takes all its members first, whatever
their names and order, so it must also be shown that no member is illegible and that nothing nests too deep.
-/

namespace TypeDoctrine

open Json

/-! ## Locations and names -/

theorem Access.readsBack : ReadsBack toJson Eq ofJson? :=
  readsBack_tag fun a => by cases a <;> decide

theorem TypeKind.readsBack : ReadsBack toJson Eq ofJson? :=
  readsBack_tag fun k => by cases k <;> decide

def Location.Respells : Json → Json → Prop :=
  RespellsRecord [{ name := "file" }, { name := "line" }, { name := "column" },
    { name := "offset", default := some (ofCount 0) }, { name := "length", default := some (ofCount 0) }]

theorem Location.readsBack : ReadsBack toJson Respells ofJson? := by
  refine .record (by decide) ?_ ?_
  · intro l
    simp only [List.forall₂_cons, List.Forall₂.nil, and_self]
  · intro l f h
    simp only [List.forall₂_cons, List.Forall₂.nil, and_true] at h
    obtain ⟨hfile, hline, hcolumn, hoffset, hlength⟩ := h
    rw [readsBack_string.required? hfile, readsBack_count.required? hline, readsBack_count.required? hcolumn,
      readsBack_count.optional? 0 hoffset, readsBack_count.optional? 0 hlength]
    rfl

/-! ## Bodies of getters -/

namespace Json

theorem areLegible_iff (items : List Json) : areLegible items = true ↔ ∀ j ∈ items, j.isLegible = true := by
  induction items with
  | nil => simp [areLegible]
  | cons j items ih => rw [areLegible, Bool.and_eq_true, ih, List.forall_mem_cons]

theorem membersLegible_iff (members : List (String × Json)) :
    membersLegible members = true ↔ ∀ m ∈ members, m.2.isLegible = true := by
  induction members with
  | nil => simp [membersLegible]
  | cons m members ih => rw [membersLegible, Bool.and_eq_true, ih, List.forall_mem_cons]

theorem depthOfItems_le_iff (items : List Json) (n : Nat) :
    depthOfItems items ≤ n ↔ ∀ j ∈ items, j.depth ≤ n := by
  induction items with
  | nil => simp [depthOfItems]
  | cons j items ih => rw [depthOfItems, Nat.max_le, ih, List.forall_mem_cons]

theorem depthOfMembers_le_iff (members : List (String × Json)) (n : Nat) :
    depthOfMembers members ≤ n ↔ ∀ m ∈ members, m.2.depth ≤ n := by
  induction members with
  | nil => simp [depthOfMembers]
  | cons m members ih => rw [depthOfMembers, Nat.max_le, ih, List.forall_mem_cons]

/-- Legible, and at most an array of scalars. -/
def IsFlat (j : Json) : Prop :=
  j.isLegible = true ∧ j.depth ≤ 1

theorem IsScalar.isLegible {j : Json} (h : IsScalar j) : j.isLegible = true := by
  cases h <;> rfl

theorem IsScalar.depth {j : Json} (h : IsScalar j) : j.depth = 0 := by
  cases h <;> rfl

theorem IsScalar.isFlat {j : Json} (h : IsScalar j) : IsFlat j := by
  refine ⟨h.isLegible, ?_⟩
  rw [h.depth]
  exact Nat.zero_le 1

theorem isFlat_ofStrings (ss : List String) : IsFlat (ofStrings ss) := by
  have hscalar : ∀ j ∈ ss.map Json.string, IsScalar j := by
    intro j hj
    obtain ⟨s, -, rfl⟩ := List.mem_map.1 hj
    exact .string s
  constructor
  · exact (areLegible_iff _).2 fun j hj => (hscalar j hj).isLegible
  · refine Nat.succ_le_succ ((depthOfItems_le_iff _ 0).2 fun j hj => ?_)
    exact Nat.le_of_eq (hscalar j hj).depth

end Json

namespace GetterBody

/-- The kind, and for code the names under theirs. -/
def Respells (j j' : Json) : Prop :=
  RespellsRecord [{ name := "kind" }] j j' ∨ RespellsRecord [{ name := "kind" }, { name := membersField }] j j'

/-- The reader finds the kind in every spelling of a body, and reads a spelling of the rest. -/
theorem ofJson?_eq_ofKind? {fields : List FieldForm} {kind : String} {members : List (String × Json)} {j : Json}
    (h : RespellsRecord ({ name := "kind" } :: fields) (.object (("kind", .string kind) :: members)) j)
    (hnodup : ("kind" :: fields.map (·.name)).Nodup)
    (hfields : ∀ form ∈ fields, form.respells = Eq) (hmembers : ∀ m ∈ members, IsFlat m.2) :
    ∃ rest, RespellsRecord fields (.object members) (.object rest) ∧ ofJson? j = ofKind? kind rest := by
  obtain ⟨f, hf, hfinds⟩ := h.exists_fields hnodup
  obtain ⟨members', rfl, hrest⟩ := h.tail (List.nodup_cons.1 hnodup).1
  refine ⟨_, hrest, ?_⟩
  have hflat : ∀ m ∈ members', IsFlat m.2 := by
    refine h.forall_mem ?_ ?_ fun v hv => hv.isFlat
    · rw [List.forall_mem_cons]
      refine ⟨?_, ?_⟩
      · rintro v _ rfl hv
        exact hv
      · intro form hform v v' hv hflat
        rw [hfields form hform] at hv
        rwa [← hv]
    · rw [List.forall_mem_cons]
      exact ⟨(IsScalar.string kind).isFlat, hmembers⟩
  have hlegible : (Json.object members').isLegible = true :=
    (membersLegible_iff _).2 fun m hm => (hflat m hm).1
  have hdepth : (Json.object members').depth ≤ depthLimit := by
    have hone := (depthOfMembers_le_iff members' 1).2 fun m hm => (hflat m hm).2
    exact Nat.le_trans (Nat.succ_le_succ hone) (by decide)
  have hone : (Json.object members').fields? ["kind"] = some f := fields?_of_subset hf (by simp)
  have hkind := readsBack_string.required? (List.forall₂_cons.1 hfinds).1
  unfold ofJson?
  rw [if_neg (by simp [hlegible, hdepth]), hone]
  simp only [Option.bind_eq_bind, Option.bind_some, hkind]

theorem readsBack : ReadsBack toJson Respells ofJson? := by
  constructor
  · intro body
    cases body with
    | auto => exact .inl (Rewrites.respellsRecord (.keep rfl .nil))
    | computed names => exact .inr (Rewrites.respellsRecord (.keep rfl (.keep rfl .nil)))
  · intro body j h
    -- the fields of one kind of body do not fit a record of the other: there is one too many or too few
    cases body with
    | auto =>
      rcases h with h | h
      · obtain ⟨rest, -, hread⟩ := ofJson?_eq_ofKind? h (by decide) (by simp) (by simp)
        exact hread
      · obtain ⟨f, -, hfinds⟩ := h.exists_fields (by decide)
        simp at hfinds
    | computed names =>
      rcases h with h | h
      · obtain ⟨f, -, hfinds⟩ := h.exists_fields (by decide)
        simp at hfinds
      · obtain ⟨rest, hrest, hread⟩ := ofJson?_eq_ofKind? h (by decide) (by simp) (by simp [isFlat_ofStrings])
        obtain ⟨f, hf, hfinds⟩ := hrest.exists_fields (by decide)
        have hnames := readsBack_strings.required? (List.forall₂_cons.1 hfinds).1
        have hkind : ofKind? "computed" rest = some (.computed names) := by
          have hf' : (Json.object rest).fields? [membersField] = some f := hf
          simp [ofKind?, hf', hnames]
        rw [hread, hkind]

end GetterBody

/-! ## Members of a type -/

def Getter.Respells : Json → Json → Prop :=
  RespellsRecord [{ name := "accessibility", default := some Access.anyone.toJson },
    { name := "body", default := some GetterBody.auto.toJson, respells := GetterBody.Respells }]

theorem Getter.readsBack : ReadsBack toJson Respells ofJson? := by
  refine .record (by decide) ?_ ?_
  · intro g
    simp only [List.forall₂_cons, List.Forall₂.nil, and_self, GetterBody.readsBack.refl]
  · intro g f h
    simp only [List.forall₂_cons, List.Forall₂.nil, and_true] at h
    obtain ⟨haccess, hbody⟩ := h
    rw [Access.readsBack.optional? .anyone haccess, GetterBody.readsBack.optional? .auto hbody]
    rfl

def Property.Respells : Json → Json → Prop :=
  RespellsRecord [{ name := "name" }, { name := "type_name", default := some (.string "") },
    { name := "is_nullable", default := some (.bool false) },
    { name := "getter", default := some .null, respells := RespellsNullable Getter.Respells },
    { name := "setter", default := some .null, respells := RespellsNullable Eq },
    { name := "initializer", default := some .null, respells := RespellsNullable Eq },
    { name := "location", default := some (Location.toJson {}), respells := Location.Respells }]

theorem Property.readsBack : ReadsBack toJson Respells ofJson? := by
  have getter := Getter.readsBack.nullable rfl
  have setter := Access.readsBack.nullable rfl
  have initializer := readsBack_string.nullable rfl
  refine .record (by decide) ?_ ?_
  · intro p
    simp only [List.forall₂_cons, List.Forall₂.nil, and_self, getter.refl, setter.refl, initializer.refl,
      Location.readsBack.refl]
  · intro p f h
    simp only [List.forall₂_cons, List.Forall₂.nil, and_true] at h
    obtain ⟨hname, htype, hnullable, hgetter, hsetter, hinitializer, hlocation⟩ := h
    rw [readsBack_string.required? hname, readsBack_string.optional? "" htype,
      readsBack_bool.optional? false hnullable, getter.optional? none hgetter, setter.optional? none hsetter,
      initializer.optional? none hinitializer, Location.readsBack.optional? {} hlocation]
    rfl

def Constructor.Respells : Json → Json → Prop :=
  RespellsRecord [{ name := "accessibility", default := some Access.anyone.toJson },
    { name := "parameter_count", default := some (ofCount 0) },
    { name := "location", default := some (Location.toJson {}), respells := Location.Respells }]

theorem Constructor.readsBack : ReadsBack toJson Respells ofJson? := by
  refine .record (by decide) ?_ ?_
  · intro c
    simp only [List.forall₂_cons, List.Forall₂.nil, and_self, Location.readsBack.refl]
  · intro c f h
    simp only [List.forall₂_cons, List.Forall₂.nil, and_true] at h
    obtain ⟨haccess, hcount, hlocation⟩ := h
    rw [Access.readsBack.optional? .anyone haccess, readsBack_count.optional? 0 hcount,
      Location.readsBack.optional? {} hlocation]
    rfl

def Field.Respells : Json → Json → Prop :=
  RespellsRecord [{ name := "name" }, { name := "is_readonly", default := some (.bool false) },
    { name := "is_const", default := some (.bool false) }, { name := "is_static", default := some (.bool false) },
    { name := "location", default := some (Location.toJson {}), respells := Location.Respells }]

theorem Field.readsBack : ReadsBack toJson Respells ofJson? := by
  refine .record (by decide) ?_ ?_
  · intro x
    simp only [List.forall₂_cons, List.Forall₂.nil, and_self, Location.readsBack.refl]
  · intro x f h
    simp only [List.forall₂_cons, List.Forall₂.nil, and_true] at h
    obtain ⟨hname, hreadonly, hconst, hstatic, hlocation⟩ := h
    rw [readsBack_string.required? hname, readsBack_bool.optional? false hreadonly,
      readsBack_bool.optional? false hconst, readsBack_bool.optional? false hstatic,
      Location.readsBack.optional? {} hlocation]
    rfl

def TypeRef.Respells : Json → Json → Prop :=
  RespellsRecord [{ name := "name" }, { name := "interfaces", default := some (ofStrings []) }]

theorem TypeRef.readsBack : ReadsBack toJson Respells ofJson? := by
  refine .record (by decide) ?_ ?_
  · intro r
    simp only [List.forall₂_cons, List.Forall₂.nil, and_self]
  · intro r f h
    simp only [List.forall₂_cons, List.Forall₂.nil, and_true] at h
    obtain ⟨hname, hinterfaces⟩ := h
    rw [readsBack_string.required? hname, readsBack_strings.optional? [] hinterfaces]
    rfl

namespace Method

def RespellsBody : Json → Json → Prop :=
  RespellsRecord [{ name := GetterBody.membersField }]

theorem readsBack_body : ReadsBack bodyToJson RespellsBody bodyOfJson? := by
  refine .record (by decide) ?_ ?_
  · intro names
    simp only [List.forall₂_cons, List.Forall₂.nil, and_self]
  · intro names f h
    simp only [List.forall₂_cons, List.Forall₂.nil, and_true] at h
    exact readsBack_strings.required? h

def Respells : Json → Json → Prop :=
  RespellsRecord [{ name := "name" }, { name := "is_static", default := some (.bool false) },
    { name := "accessibility", default := some Access.anyone.toJson },
    { name := "parameter_count", default := some (ofCount 0) },
    { name := "return_type", default := some (TypeRef.toJson {}), respells := TypeRef.Respells },
    { name := "body", default := some .null, respells := RespellsNullable RespellsBody },
    { name := "location", default := some (Location.toJson {}), respells := Location.Respells }]

theorem readsBack : ReadsBack toJson Respells ofJson? := by
  have body := readsBack_body.nullable rfl
  refine .record (by decide) ?_ ?_
  · intro m
    simp only [List.forall₂_cons, List.Forall₂.nil, and_self, TypeRef.readsBack.refl, body.refl,
      Location.readsBack.refl]
  · intro m f h
    simp only [List.forall₂_cons, List.Forall₂.nil, and_true] at h
    obtain ⟨hname, hstatic, haccess, hcount, hreturn, hbody, hlocation⟩ := h
    rw [readsBack_string.required? hname, readsBack_bool.optional? false hstatic,
      Access.readsBack.optional? .anyone haccess, readsBack_count.optional? 0 hcount,
      TypeRef.readsBack.optional? {} hreturn, body.optional? none hbody,
      Location.readsBack.optional? {} hlocation]
    rfl

end Method

def Suppression.Respells : Json → Json → Prop :=
  RespellsRecord [{ name := "rule" },
    { name := "justification", default := some .null, respells := RespellsNullable Eq }]

theorem Suppression.readsBack : ReadsBack toJson Respells ofJson? := by
  have justification := readsBack_string.nullable rfl
  refine .record (by decide) ?_ ?_
  · intro s
    simp only [List.forall₂_cons, List.Forall₂.nil, and_self, justification.refl]
  · intro s f h
    simp only [List.forall₂_cons, List.Forall₂.nil, and_true] at h
    obtain ⟨hrule, hjustification⟩ := h
    rw [readsBack_string.required? hrule, justification.optional? none hjustification]
    rfl

/-! ## Types -/

namespace TypeDecl

/-- `j'` is another way of writing the declaration `j`. -/
def Respells : Json → Json → Prop :=
  RespellsRecord [{ name := "name" },
    { name := "qualified_name", default := some .null, respells := RespellsNullable Eq },
    { name := "kind", default := some TypeKind.classType.toJson },
    { name := "is_abstract", default := some (.bool false) },
    { name := "is_sealed", default := some (.bool false) },
    { name := "interfaces", default := some (.array []) },
    { name := "properties", default := some (.array []), respells := RespellsList Property.Respells },
    { name := "constructors", default := some (.array []), respells := RespellsList Constructor.Respells },
    { name := "methods", default := some (.array []), respells := RespellsList Method.Respells },
    { name := "fields", default := some (.array []), respells := RespellsList Field.Respells },
    { name := "suppressions", default := some (.array []), respells := RespellsList Suppression.Respells },
    { name := "location", default := some (Location.toJson {}), respells := Location.Respells }]

theorem readsBack : ReadsBack toJson Respells ofJson? := by
  have qualifiedName := readsBack_string.nullable rfl
  have properties := Property.readsBack.list
  have constructors := Constructor.readsBack.list
  have methods := Method.readsBack.list
  have fields := Field.readsBack.list
  have suppressions := Suppression.readsBack.list
  refine .record (by decide) ?_ ?_
  · intro t
    simp only [List.forall₂_cons, List.Forall₂.nil, and_self, qualifiedName.refl, properties.refl,
      constructors.refl, methods.refl, fields.refl, suppressions.refl, Location.readsBack.refl]
  · intro t f h
    simp only [List.forall₂_cons, List.Forall₂.nil, and_true] at h
    obtain ⟨hname, hqualified, hkind, habstract, hsealed, hinterfaces, hproperties, hconstructors, hmethods,
      hfields, hsuppressions, hlocation⟩ := h
    rw [readsBack_string.required? hname, qualifiedName.optional? none hqualified,
      TypeKind.readsBack.optional? .classType hkind, readsBack_bool.optional? false habstract,
      readsBack_bool.optional? false hsealed, readsBack_strings.optional? [] hinterfaces,
      properties.optional? [] hproperties, constructors.optional? [] hconstructors,
      methods.optional? [] hmethods, fields.optional? [] hfields, suppressions.optional? [] hsuppressions,
      Location.readsBack.optional? {} hlocation]
    rfl

/-- A declaration is read back from its form in JSON, and from every spelling of that form. -/
theorem ofJson?_respelled (t : TypeDecl) :
    ofJson? t.toJson = some t ∧ ∀ j, Respells t.toJson j → ofJson? j = some t := by
  refine ⟨readsBack.read_write t, ?_⟩
  intro j hj
  exact readsBack.reads t j hj

/-- A type with one property, whose getter has code. -/
def flaggedResult : TypeDecl :=
  { name := "FlaggedResult", isSealed := true,
    properties := [{
      name := "Success", getter := some { body := .computed ["Errors"] },
      location := { file := "Result.cs", line := 3, column := 5 } }] }

def flaggedBodyForm : Json :=
  .object [("is_expression", .bool true), (GetterBody.membersField, ofStrings ["Errors"]),
    ("kind", .string "computed")]

def flaggedPropertyForm : Json :=
  .object [("location", .object [("column", ofCount 5), ("line", ofCount 3), ("file", .string "Result.cs")]),
    ("getter", .object [("body", flaggedBodyForm)]), ("name", .string "Success")]

/-- It, with all members from last to first, defaults left out, and members added that nothing reads. -/
def flaggedForm : Json :=
  .object [("namespace", .null), ("properties", .array [flaggedPropertyForm]), ("is_sealed", .bool true),
    ("name", .string "FlaggedResult")]

theorem respells_flaggedForm : Respells flaggedResult.toJson flaggedForm := by
  have hlocation : Location.Respells (Location.toJson { file := "Result.cs", line := 3, column := 5 })
      (.object [("column", ofCount 5), ("line", ofCount 3), ("file", .string "Result.cs")]) :=
    Rewrites.respellsRecord_reverse (.keep rfl (.keep rfl (.keep rfl (.drop rfl (.drop rfl .nil))))) [] (by simp)
  have hbody : GetterBody.Respells (GetterBody.computed ["Errors"]).toJson flaggedBodyForm := by
    refine .inr (Rewrites.respellsRecord_reverse (.keep rfl (.keep rfl .nil)) [("is_expression", .bool true)] ?_)
    simp [GetterBody.membersField, IsScalar.bool]
  have hgetter : RespellsNullable Getter.Respells (Getter.toJson { body := .computed ["Errors"] })
      (.object [("body", flaggedBodyForm)]) :=
    .inr ⟨nofun, Rewrites.respellsRecord_reverse (.drop rfl (.keep hbody .nil)) [] (by simp)⟩
  have hproperty : RespellsList Property.Respells
      (ofList Property.toJson flaggedResult.properties) (.array [flaggedPropertyForm]) := by
    refine ⟨_, _, rfl, rfl, .cons ?_ .nil⟩
    exact Rewrites.respellsRecord_reverse (.keep rfl (.drop rfl (.drop rfl (.keep hgetter
      (.drop rfl (.drop rfl (.keep hlocation .nil))))))) [] (by simp)
  exact Rewrites.respellsRecord_reverse (.keep rfl (.drop rfl (.drop rfl (.drop rfl (.keep rfl (.drop rfl
    (.keep hproperty (.drop rfl (.drop rfl (.drop rfl (.drop rfl (.drop rfl .nil))))))))))))
    [("namespace", .null)] (by simp [IsScalar.null])

theorem ofJson?_respelled_flaggedForm :
    Respells flaggedResult.toJson flaggedForm ∧ ofJson? flaggedForm = some flaggedResult :=
  ⟨respells_flaggedForm, (ofJson?_respelled flaggedResult).2 flaggedForm respells_flaggedForm⟩

end TypeDecl

end TypeDoctrine
