import TypeDoctrine.Proofs.Classification
import TypeDoctrine.Proofs.Evaluation
import TypeDoctrine.Proofs.PresetRules
import TypeDoctrine.Proofs.Trimming

/-!
# The doctrine

What is asked of a concrete class, said of its capabilities and members alone. `Doctrine` has a clause for
each kind of contract, builder and component, and mentions no rule. The recommended rules find nothing in
a class without suppressions exactly when every clause holds (`evaluate_standard_eq_nil_iff`).

Each rule is read once, as the clause that it checks (`Rule.Holds` and the lemmas ending in `_holds`).
Rules that differ in a name or a test only share their lemma: the tables of required properties, the
success flags, and the rules that report every member failing a test.
-/

namespace TypeDoctrine

open Rules

/-! ## The clauses -/

/-- What code outside the type can use: members that are public, internal or protected internal. -/
def Access.Visible (a : Access) : Prop :=
  a = .anyone ∨ a = .assembly ∨ a = .assemblyOrDerived

/-- Outside code can assign the property. -/
def Property.Settable (p : Property) : Prop :=
  ∃ access, p.setter = some access ∧ access.Visible

/-- Outside code can read the property. -/
def Property.Readable (p : Property) : Prop :=
  ∃ g, p.getter = some g ∧ g.access.Visible

namespace TypeDecl

/-- Outside code can read the property of this name. Of several with one name, the first counts. -/
def Exposes (t : TypeDecl) (name : String) : Prop :=
  ∃ p, t.property? name = some p ∧ p.Readable

/-- A flag, if the type has it, cannot be assigned by outside code and is code that mentions one of the
sources. -/
def DerivesFlag (t : TypeDecl) (flag : String) (sources : List String) : Prop :=
  ∀ p, t.property? flag = some p → ¬ p.Settable ∧
    ∃ g members, p.getter = some g ∧ g.body = .computed members ∧ ∃ n ∈ sources, n ∈ members

/-- A reference names the type, by its name or its qualified name, type arguments aside. -/
def NamedBy (t : TypeDecl) (ref : TypeRef) : Prop :=
  ∃ name, (t.name = name ∨ t.qualifiedName = some name) ∧
    (GenericName.parse ref.name).base = (GenericName.parse name).base

/-- The first method `Build` that has a body has this one. -/
def BuildsWith (t : TypeDecl) (body : List String) : Prop :=
  ∃ before m after, t.methods = before ++ m :: after ∧ m.name = "Build" ∧ m.body = some body ∧
    ∀ n ∈ before, n.name = "Build" → n.body = none

end TypeDecl

/-- An initializer that is null: blanks may stand around it, and semicolons at its end. -/
def IsNull (text : String) : Prop :=
  ∃ word ∈ ["null", "null!", "default", "default!"], ∃ before between after n,
    (∀ c ∈ before ++ between ++ after, Text.isBlank c = true) ∧
      text.toList = before ++ word.toList ++ between ++ List.replicate n ';' ++ after

/-- A name is that of a member, or of the field behind it: underscores at its start and case aside. -/
def NamesMember (member name : String) : Prop :=
  ∃ n rest, name.toList = List.replicate n '_' ++ rest ∧
    rest.map Char.toLower = member.toList.map Char.toLower

/-- The capabilities of data that never changes once it is created. -/
def immutableFamily : List Capability :=
  [.result, .resultOfValue, .envelope, .envelopeOfValue, .headeredEnvelope, .streamableEnvelope, .metadata,
    .errorInfo, .code, .validationContext]

/-- The capabilities of builders. -/
def builderFamily : List Capability :=
  [.errorInfoBuilder, .metadataBuilder, .envelopeBuilder]

/-- What is asked of a concrete class, given the markers of a registry. -/
structure Doctrine (g : Registry) (t : TypeDecl) : Prop where
  immutable : (∃ c ∈ immutableFamily, g.Classifies t c) →
    t.isSealed = true ∧ (∀ p ∈ t.properties, ¬ p.Settable) ∧ ∀ c ∈ t.constructors, ¬ c.access.Visible
  result : g.Classifies t .result →
    t.Exposes "Messages" ∧ t.Exposes "Errors" ∧ (g.Classifies t .resultOfValue → t.Exposes "Value") ∧
      t.DerivesFlag "IsSuccess" ["Errors"]
  envelope : g.Classifies t .envelope →
    t.Exposes "Messages" ∧ t.Exposes "Errors" ∧ t.Exposes "Code" ∧
      (g.Classifies t .envelopeOfValue → t.Exposes "Value") ∧ t.DerivesFlag "IsSuccess" ["Errors", "Code"]
  envelopeValue : g.Classifies t .envelopeOfValue →
    ∀ p, t.property? "Value" = some p → ∀ access, p.setter = some access → access = .owner
  headers : g.Classifies t .headeredEnvelope → t.Exposes "Headers"
  stream : g.Classifies t .streamableEnvelope → t.Exposes "Stream"
  code : g.Classifies t .code → t.Exposes "Definition"
  errorInfo : g.Classifies t .errorInfo →
    t.Exposes "ErrorDefinition" ∧ t.Exposes "Code" ∧ t.Exposes "Message" ∧ t.Exposes "InstanceId" ∧
      ∀ p, t.property? "InnerErrors" = some p → p.isNullable = false ∧ '?' ∉ p.typeName.toList ∧
        ∀ text, p.initializer = some text → ¬ IsNull text
  validation : g.Classifies t .validationContext →
    t.Exposes "Definition" ∧
      (∃ m ∈ t.methods, m.isStatic = true ∧ m.access.Visible ∧
        (t.NamedBy m.returnType ∨ g.ClassifiesRef m.returnType .validationContext)) ∧
      ∀ p, t.property? "IsSuccessful" = some p → ¬ p.Settable ∧
        ∃ g members, p.getter = some g ∧ g.body = .computed members
  errorBuilder : g.Classifies t .errorInfoBuilder →
    ∀ body, t.BuildsWith body →
      ∀ member ∈ ["ErrorDefinition", "Code", "Message", "InstanceId"], ∃ name ∈ body, NamesMember member name
  metadataBuilder : g.Classifies t .metadataBuilder →
    ∃ m ∈ t.methods, m.name = "Build" ∧ m.isStatic = false ∧ m.parameterCount = 0 ∧ m.access = .anyone
  chaining : (∃ c ∈ builderFamily, g.Classifies t c) →
    ∀ m ∈ t.methods, m.access = .anyone → m.isStatic = false → m.name ≠ "Build" →
      t.NamedBy m.returnType ∨ ∃ c ∈ builderFamily, g.ClassifiesRef m.returnType c
  stateless : g.Classifies t .handler ∨ g.Classifies t .policy →
    ∀ f ∈ t.fields, f.isReadonly = true ∨ f.isConst = true ∨ f.isStatic = true

/-! ## What the tests of members say -/

theorem Access.isVisible_iff (a : Access) : a.isVisible = true ↔ a.Visible := by
  cases a <;> simp [isVisible, Visible]

theorem Access.isVisible_eq_false_iff (a : Access) : a.isVisible = false ↔ ¬ a.Visible := by
  rw [← isVisible_iff, Bool.not_eq_true]

theorem Property.isReadable_iff (p : Property) : p.isReadable = true ↔ p.Readable := by
  unfold isReadable Readable
  cases p.getter <;> simp [Access.isVisible_iff]

theorem Property.hasVisibleSetter_eq_false_iff (p : Property) : p.hasVisibleSetter = false ↔ ¬ p.Settable := by
  unfold hasVisibleSetter Settable
  cases p.setter <;> simp [Access.isVisible_eq_false_iff]

theorem Property.isComputed_iff (p : Property) :
    p.isComputed = true ↔ ∃ g members, p.getter = some g ∧ g.body = .computed members := by
  unfold isComputed
  cases p.getter with
  | none => simp
  | some g => cases hb : g.body <;> simp [GetterBody.isComputed, hb]

theorem TypeDecl.isNamedBy_iff (t : TypeDecl) (ref : TypeRef) : t.isNamedBy ref = true ↔ t.NamedBy ref := by
  unfold isNamedBy NamedBy
  simp only [or_and_right, exists_or, exists_eq_left', Bool.or_eq_true, beq_iff_eq]
  refine or_congr Iff.rfl ?_
  cases t.qualifiedName with
  | none => simp
  | some q =>
    simp only [Option.any_some, beq_iff_eq, Option.some.injEq, exists_eq_left']
    exact eq_comm

/-! ## What one rule asks -/

/-- The rule, if it concerns the type, finds nothing. -/
def Rule.Holds (r : Rule) (s : Subject) : Prop :=
  r.applies s.classification = true → r.check s = []

theorem map_filter_eq_nil {α β : Type} (l : List α) (p : α → Bool) (f : α → β) :
    (l.filter p).map f = [] ↔ ∀ x ∈ l, p x = false := by
  simp [List.filter_eq_nil_iff]

theorem one_if_eq_nil {α : Type} (b : Bool) (v : α) : (if b then [] else [v]) = [] ↔ b = true := by
  cases b <;> simp

theorem flagViolations_eq_nil (e : RuleEntry) (flag : String) (fails : Property → Bool) (s : Subject) :
    flagViolations e flag fails s = [] ↔ ∀ p, s.type.property? flag = some p → fails p = false := by
  unfold flagViolations Subject.property?
  cases s.type.property? flag with
  | none => simp
  | some p => cases hp : fails p <;> simp [hp]

theorem isDerivedFrom_iff (p : Property) (sources : List String) :
    isDerivedFrom p sources = true ↔
      ∃ g members, p.getter = some g ∧ g.body = .computed members ∧ ∃ n ∈ sources, n ∈ members := by
  unfold isDerivedFrom
  cases p.getter with
  | none => simp
  | some g => cases hb : g.body <;> simp [GetterBody.mentions, hb]

theorem isReadableIn_iff (s : Subject) (name : String) :
    RequiredProperties.isReadableIn s name = true ↔ s.type.Exposes name := by
  unfold RequiredProperties.isReadableIn Subject.property? TypeDecl.Exposes
  cases s.type.property? name <;> simp [Property.isReadable_iff]

/-- A table of required properties asks for its names, and for `Value` of types that carry one. -/
theorem RequiredProperties.toRule_holds (q : RequiredProperties) (s : Subject) :
    q.toRule.Holds s ↔ (s.has q.capability = true → (∀ name ∈ q.required, s.type.Exposes name) ∧
      ∀ c, q.valueCapability = some c → s.has c = true → s.type.Exposes "Value") := by
  refine imp_congr Iff.rfl ?_
  simp only [toRule, missing, map_filter_eq_nil, Bool.not_eq_false', isReadableIn_iff, namesFor,
    List.forall_mem_append]
  refine and_congr Iff.rfl ?_
  cases q.valueCapability with
  | none => simp
  | some c => cases hc : s.has c <;> simp [hc]

variable (g : Registry) (t : TypeDecl)

theorem has_of (c : Capability) : (Subject.of g t).has c = true ↔ g.Classifies t c :=
  g.has_classify t c

/-- A rule for a category asks its check of the types with a capability that leads there. -/
theorem Rule.ofCategory_holds (e : RuleEntry) (check : Subject → List Violation) {l : List Capability}
    (hl : ∀ x, e.category ∈ Capability.categories x ↔ x ∈ l) :
    (Rule.ofCategory e check).Holds (.of g t) ↔ ((∃ c ∈ l, g.Classifies t c) → check (.of g t) = []) := by
  refine imp_congr ?_ Iff.rfl
  refine (Classification.inCategory_iff_of _ hl).trans ?_
  simp only [← has_of]
  rfl

/-! ## Which capabilities lead to a category -/

theorem mem_immutable (x : Capability) : .immutableContract ∈ x.categories ↔ x ∈ immutableFamily := by
  cases x <;> decide

theorem mem_validation (x : Capability) : .validationContract ∈ x.categories ↔ x ∈ [.validationContext] := by
  cases x <;> decide

theorem mem_builder (x : Capability) : .builderContract ∈ x.categories ↔ x ∈ builderFamily := by
  cases x <;> decide

theorem mem_stateless (x : Capability) : .statelessComponent ∈ x.categories ↔ x ∈ [.handler, .policy] := by
  cases x <;> decide

/-! ## Initializers, names and bodies -/

/-- The words for null start and end with no blank and no semicolon. -/
theorem ends_of_mem_nullInitializers {word : String} (h : word ∈ nullInitializers) :
    ∃ a b cs ds, word.toList = a :: cs ∧ word.toList = ds ++ [b] ∧ Text.isBlank a = false ∧
      Text.isBlank b = false ∧ (b == ';') = false := by
  simp only [nullInitializers, List.mem_cons, List.not_mem_nil, or_false] at h
  rcases h with rfl | rfl | rfl | rfl
  · exact ⟨'n', 'l', ['u', 'l', 'l'], ['n', 'u', 'l'], by decide⟩
  · exact ⟨'n', '!', ['u', 'l', 'l', '!'], ['n', 'u', 'l', 'l'], by decide⟩
  · exact ⟨'d', 't', ['e', 'f', 'a', 'u', 'l', 't'], ['d', 'e', 'f', 'a', 'u', 'l'], by decide⟩
  · exact ⟨'d', '!', ['e', 'f', 'a', 'u', 'l', 't', '!'], ['d', 'e', 'f', 'a', 'u', 'l', 't'], by decide⟩

open Text in
/-- Trimming, dropping semicolons and trimming again leaves the word. -/
theorem trim_initializer {word before between after : List Char} {a b : Char} {cs ds : List Char} (n : Nat)
    (hfirst : word = a :: cs) (hlast : word = ds ++ [b]) (ha : isBlank a = false) (hb : isBlank b = false)
    (hsemi : (b == ';') = false) (hblank : ∀ c ∈ before ++ between ++ after, isBlank c = true) :
    trim (dropEndWhile (· == ';') (trim (before ++ word ++ between ++ List.replicate n ';' ++ after))) = word := by
  simp only [List.forall_mem_append] at hblank
  obtain ⟨⟨hbefore, hbetween⟩, hafter⟩ := hblank
  have hword : ∀ {l : List Char}, (∀ c ∈ l, isBlank c = true) → trim (word ++ l) = word := by
    intro l hl
    simpa using trim_append [] word l (by simp) hl ha hb ⟨cs, ds, hfirst, hlast⟩
  cases n with
  | zero =>
    -- without semicolons the first trimming does it
    have htrim : trim (before ++ word ++ between ++ List.replicate 0 ';' ++ after) = word := by
      have h := trim_append before word (between ++ after) hbefore (List.forall_mem_append.2 ⟨hbetween, hafter⟩)
        ha hb ⟨cs, ds, hfirst, hlast⟩
      simpa using h
    have hdrop : dropEndWhile (· == ';') word = word := by
      rw [hlast]
      exact dropEndWhile_append (· == ';') ds hsemi (by simp)
    have hself : trim (word ++ []) = word := hword (by simp)
    rw [List.append_nil] at hself
    rw [htrim, hdrop, hself]
  | succ n =>
    -- the first trimming ends at a semicolon, dropping them ends before the blanks in between
    have htrim : trim (before ++ word ++ between ++ List.replicate (n + 1) ';' ++ after) =
        word ++ between ++ List.replicate (n + 1) ';' := by
      have h := trim_append before (word ++ between ++ List.replicate (n + 1) ';') after hbefore hafter ha
        (show isBlank ';' = false by decide)
        ⟨cs ++ between ++ List.replicate (n + 1) ';', word ++ between ++ List.replicate n ';', by simp [hfirst],
          by simp [List.replicate_succ']⟩
      simpa using h
    have hdrop : dropEndWhile (· == ';') (word ++ between ++ List.replicate (n + 1) ';') = word ++ between := by
      have hsemis : ∀ c ∈ List.replicate (n + 1) ';', (c == ';') = true := by simp
      rcases List.eq_nil_or_concat between with rfl | ⟨l, c, rfl⟩
      · simpa [hlast] using dropEndWhile_append (· == ';') ds hsemi hsemis
      · have hc : (c == ';') = false := by
          rw [beq_eq_false_iff_ne]
          rintro rfl
          exact absurd (hbetween ';' (by simp)) (by decide)
        simpa using dropEndWhile_append (· == ';') (word ++ l) hc hsemis
    rw [htrim, hdrop, hword hbetween]

open Text in
theorem isNullInitializer_iff (text : String) : isNullInitializer text = true ↔ IsNull text := by
  unfold isNullInitializer IsNull
  rw [List.contains_iff_mem]
  constructor
  · intro h
    obtain ⟨before, after, houter, he⟩ := exists_trim_eq text.toList
    obtain ⟨semis, hs, hd⟩ := exists_dropEndWhile_eq (· == ';') (trim text.toList)
    obtain ⟨inner, between, hinner, hw⟩ := exists_trim_eq (dropEndWhile (· == ';') (trim text.toList))
    refine ⟨_, h, before ++ inner, between, after, semis.length, ?_, ?_⟩
    · simp only [List.forall_mem_append] at houter hinner ⊢
      exact ⟨⟨⟨houter.1, hinner.1⟩, hinner.2⟩, houter.2⟩
    · have hsemis : semis = List.replicate semis.length ';' :=
        List.eq_replicate_of_mem fun c hc => by simpa using hs c hc
      rw [← hsemis, String.toList_ofList]
      calc text.toList = before ++ trim text.toList ++ after := he
        _ = before ++ (dropEndWhile (· == ';') (trim text.toList) ++ semis) ++ after := by rw [← hd]
        _ = before ++ (inner ++ trim (dropEndWhile (· == ';') (trim text.toList)) ++ between ++ semis) ++
            after := by rw [← hw]
        _ = _ := by simp only [List.append_assoc]
  · rintro ⟨word, hw, before, between, after, n, hblank, ht⟩
    obtain ⟨a, b, cs, ds, hfirst, hlast, ha, hb, hsemi⟩ := ends_of_mem_nullInitializers hw
    rw [ht, trim_initializer n hfirst hlast ha hb hsemi hblank, String.ofList_toList]
    exact hw

theorem isMemberName_iff {member : String} (hm : member.toList.head?.map Char.toLower ≠ some '_') (name : String) :
    isMemberName member name = true ↔ NamesMember member name := by
  unfold isMemberName NamesMember Text.sameIgnoringCase
  rw [beq_iff_eq, String.toList_ofList]
  constructor
  · intro h
    refine ⟨(name.toList.takeWhile (· == '_')).length, name.toList.dropWhile (· == '_'), ?_, h⟩
    have hu : name.toList.takeWhile (· == '_') = List.replicate (name.toList.takeWhile (· == '_')).length '_' :=
      List.eq_replicate_of_mem fun c hc => by simpa using List.mem_takeWhile_imp hc
    rw [← hu, List.takeWhile_append_dropWhile]
  · rintro ⟨n, rest, hn, hrest⟩
    have hdrop : rest.dropWhile (· == '_') = rest := by
      cases rest with
      | nil => rfl
      | cons c rest =>
        refine List.dropWhile_cons_of_neg fun hc => hm ?_
        obtain rfl : c = '_' := beq_iff_eq.1 hc
        have hhead := congrArg List.head? hrest
        rw [List.head?_map, List.head?_map] at hhead
        exact hhead.symm
    rw [hn, List.dropWhile_append_of_pos (by simp), hdrop]
    exact hrest

theorem findSome?_filter {α β : Type} (p : α → Bool) (f : α → Option β) (l : List α) :
    (l.filter p).findSome? f = l.findSome? fun x => if p x then f x else none := by
  induction l with
  | nil => rfl
  | cons x l ih => cases hp : p x <;> simp [hp, ih, List.findSome?_cons]

theorem buildBody?_eq_some_iff (t : TypeDecl) (body : List String) :
    buildBody? t = some body ↔ t.BuildsWith body := by
  unfold buildBody? TypeDecl.BuildsWith
  rw [findSome?_filter, List.findSome?_eq_some_iff]
  simp [and_assoc]

/-! ## The rules on shape -/

theorem mustBeSealed_holds :
    mustBeSealed.Holds (.of g t) ↔ ((∃ c ∈ immutableFamily, g.Classifies t c) → t.isSealed = true) :=
  (Rule.ofCategory_holds g t _ _ mem_immutable).trans (imp_congr Iff.rfl (one_if_eq_nil _ _))

theorem mustBeGetOnly_holds :
    mustBeGetOnly.Holds (.of g t) ↔ ((∃ c ∈ immutableFamily, g.Classifies t c) →
      ∀ p ∈ t.properties, ¬ p.Settable) := by
  refine (Rule.ofCategory_holds g t _ _ mem_immutable).trans (imp_congr Iff.rfl ?_)
  refine (map_filter_eq_nil _ _ _).trans ?_
  exact forall₂_congr fun p _ => p.hasVisibleSetter_eq_false_iff

theorem mustHideConstructors_holds :
    mustHideConstructors.Holds (.of g t) ↔ ((∃ c ∈ immutableFamily, g.Classifies t c) →
      ∀ c ∈ t.constructors, ¬ c.access.Visible) := by
  refine (Rule.ofCategory_holds g t _ _ mem_immutable).trans (imp_congr Iff.rfl ?_)
  refine (map_filter_eq_nil _ _ _).trans ?_
  exact forall₂_congr fun c _ => c.access.isVisible_eq_false_iff

theorem mustHaveFactory_holds :
    mustHaveFactory.Holds (.of g t) ↔ (g.Classifies t .validationContext →
      ∃ m ∈ t.methods, m.isStatic = true ∧ m.access.Visible ∧
        (t.NamedBy m.returnType ∨ g.ClassifiesRef m.returnType .validationContext)) := by
  refine (Rule.ofCategory_holds g t _ _ mem_validation).trans (imp_congr (by simp) ?_)
  rw [one_if_eq_nil, List.any_eq_true]
  simp only [isFactory, Bool.and_eq_true, Bool.or_eq_true, Access.isVisible_iff, TypeDecl.isNamedBy_iff,
    Registry.refHas_iff, and_assoc, Subject.of]

/-! ## The rules on success flags -/

/-- A flag passes when outside code cannot assign it. -/
theorem settable_eq_nil (e : RuleEntry) (flag : String) :
    flagViolations e flag Property.hasVisibleSetter (.of g t) = [] ↔
      ∀ p, t.property? flag = some p → ¬ p.Settable := by
  refine (flagViolations_eq_nil _ _ _ _).trans ?_
  exact forall₂_congr fun p _ => p.hasVisibleSetter_eq_false_iff

theorem successNotSettable_holds :
    successNotSettable.Holds (.of g t) ↔ (g.Classifies t .result ∨ g.Classifies t .envelope →
      ∀ p, t.property? "IsSuccess" = some p → ¬ p.Settable) := by
  refine imp_congr ?_ (settable_eq_nil g t _ _)
  refine (Classification.hasAny_iff _ _).trans ?_
  simp only [List.mem_cons, List.not_mem_nil, or_false, exists_eq_or_imp, exists_eq_left]
  exact or_congr (has_of g t _) (has_of g t _)

/-- A flag passes when it is code that mentions one of its sources. -/
theorem derived_eq_nil (e : RuleEntry) (sources : List String) :
    flagViolations e isSuccess (fun p => !isDerivedFrom p sources) (.of g t) = [] ↔
      ∀ p, t.property? "IsSuccess" = some p →
        ∃ g members, p.getter = some g ∧ g.body = .computed members ∧ ∃ n ∈ sources, n ∈ members := by
  refine (flagViolations_eq_nil _ _ _ _).trans ?_
  simp only [Bool.not_eq_false', isDerivedFrom_iff]
  rfl

theorem resultSuccessDerived_holds :
    resultSuccessDerived.Holds (.of g t) ↔ (g.Classifies t .result → ∀ p, t.property? "IsSuccess" = some p →
      ∃ g members, p.getter = some g ∧ g.body = .computed members ∧ ∃ n ∈ ["Errors"], n ∈ members) :=
  imp_congr (has_of g t _) (derived_eq_nil g t _ _)

theorem envelopeSuccessDerived_holds :
    envelopeSuccessDerived.Holds (.of g t) ↔ (g.Classifies t .envelope → ∀ p, t.property? "IsSuccess" = some p →
      ∃ g members, p.getter = some g ∧ g.body = .computed members ∧ ∃ n ∈ ["Errors", "Code"], n ∈ members) :=
  imp_congr (has_of g t _) (derived_eq_nil g t _ _)

theorem successfulNotSettable_holds :
    successfulNotSettable.Holds (.of g t) ↔ (g.Classifies t .validationContext →
      ∀ p, t.property? "IsSuccessful" = some p → ¬ p.Settable) :=
  (Rule.ofCategory_holds g t _ _ mem_validation).trans (imp_congr (by simp) (settable_eq_nil g t _ _))

theorem successfulComputed_holds :
    successfulComputed.Holds (.of g t) ↔ (g.Classifies t .validationContext →
      ∀ p, t.property? "IsSuccessful" = some p → ∃ g members, p.getter = some g ∧ g.body = .computed members) := by
  refine (Rule.ofCategory_holds g t _ _ mem_validation).trans (imp_congr (by simp) ?_)
  refine (flagViolations_eq_nil _ _ _ _).trans ?_
  simp only [Bool.not_eq_false', Property.isComputed_iff]
  rfl

/-! ## The rules on single members, builders and components -/

theorem valueIsPrivate_holds :
    valueIsPrivate.Holds (.of g t) ↔ (g.Classifies t .envelopeOfValue →
      ∀ p, t.property? "Value" = some p → ∀ access, p.setter = some access → access = .owner) := by
  refine imp_congr (has_of g t _) ?_
  simp only [valueIsPrivate, Subject.property?, Subject.of, envelopeValue]
  cases t.property? "Value" with
  | none => simp
  | some p => cases hs : p.setter <;> simp [isSettableOutside, hs]

theorem innerErrorsNotNull_holds :
    innerErrorsNotNull.Holds (.of g t) ↔ (g.Classifies t .errorInfo →
      ∀ p, t.property? "InnerErrors" = some p → p.isNullable = false ∧ '?' ∉ p.typeName.toList ∧
        ∀ text, p.initializer = some text → ¬ IsNull text) := by
  refine imp_congr (has_of g t _) ?_
  simp only [innerErrorsNotNull, Subject.property?, Subject.of, innerErrors]
  cases t.property? "InnerErrors" with
  | none => simp
  | some p => cases hi : p.initializer <;> simp [allowsNull, startsNull, hi, and_assoc, ← isNullInitializer_iff]

theorem completeError_holds :
    completeError.Holds (.of g t) ↔ (g.Classifies t .errorInfoBuilder → ∀ body, t.BuildsWith body →
      ∀ member ∈ ["ErrorDefinition", "Code", "Message", "InstanceId"],
        ∃ name ∈ body, NamesMember member name) := by
  refine imp_congr (has_of g t _) ?_
  simp only [completeError, Subject.of, ← buildBody?_eq_some_iff]
  cases buildBody? t with
  | none => simp
  | some body =>
    simp only [Option.some.injEq, forall_eq']
    refine (one_if_eq_nil _ _).trans ?_
    rw [List.isEmpty_iff, missingMembers, List.filter_eq_nil_iff]
    simp only [Bool.not_eq_true', Bool.not_eq_false, List.any_eq_true]
    have hhead : ∀ member ∈ mandatoryMembers, member.toList.head?.map Char.toLower ≠ some '_' := by decide
    refine forall₂_congr fun member hm => exists_congr fun name => and_congr_right fun _ => ?_
    exact isMemberName_iff (hhead member hm) name

theorem mustBuild_holds :
    mustBuild.Holds (.of g t) ↔ (g.Classifies t .metadataBuilder →
      ∃ m ∈ t.methods, m.name = "Build" ∧ m.isStatic = false ∧ m.parameterCount = 0 ∧ m.access = .anyone) := by
  refine imp_congr (has_of g t _) ((one_if_eq_nil _ _).trans ?_)
  simp only [Subject.of, List.any_eq_true, canBuild, build, Bool.and_eq_true, beq_iff_eq, Bool.not_eq_true',
    and_assoc]

theorem methodsChain_holds :
    methodsChain.Holds (.of g t) ↔ ((∃ c ∈ builderFamily, g.Classifies t c) →
      ∀ m ∈ t.methods, m.access = .anyone → m.isStatic = false → m.name ≠ "Build" →
        t.NamedBy m.returnType ∨ ∃ c ∈ builderFamily, g.ClassifiesRef m.returnType c) := by
  refine (Rule.ofCategory_holds g t _ _ mem_builder).trans (imp_congr Iff.rfl ?_)
  refine (map_filter_eq_nil _ _ _).trans (forall₂_congr fun m _ => ?_)
  simp only [mustChain, chains, Bool.and_eq_false_imp, Bool.not_eq_false', Bool.and_eq_true, Bool.or_eq_true,
    beq_iff_eq, bne_iff_ne, Bool.not_eq_true', List.any_eq_true, TypeDecl.isNamedBy_iff, Registry.refHas_iff,
    and_imp, Subject.of]
  rfl

theorem mustBeStateless_holds :
    mustBeStateless.Holds (.of g t) ↔ (g.Classifies t .handler ∨ g.Classifies t .policy →
      ∀ f ∈ t.fields, f.isReadonly = true ∨ f.isConst = true ∨ f.isStatic = true) := by
  refine (Rule.ofCategory_holds g t _ _ mem_stateless).trans (imp_congr (by simp) ?_)
  refine (map_filter_eq_nil _ _ _).trans (forall₂_congr fun f _ => ?_)
  cases hs : f.isStatic <;> cases hc : f.isConst <;> cases hr : f.isReadonly <;>
    simp [Field.isMutable, hs, hc, hr]

/-! ## All rules together -/

theorem requirements_recommended : Preset.requirements .recommended {} = RequiredProperties.all :=
  rfl

theorem forall_recommended (P : Rule → Prop) :
    (∀ r ∈ Preset.rules .recommended {}, P r) ↔
      (∀ r ∈ Preset.shapeRules, P r) ∧ (∀ r ∈ Preset.successRules, P r) ∧
        (∀ q ∈ RequiredProperties.all, P q.toRule) ∧ ∀ r ∈ Preset.memberRules, P r := by
  have hf : Preset.isFull .recommended = true := rfl
  simp only [Preset.rules, hf, if_true, requirements_recommended, List.forall_mem_append, List.forall_mem_map,
    and_assoc]

/-- What the tables of required properties ask together. -/
theorem requirements_hold :
    (∀ q ∈ RequiredProperties.all, q.toRule.Holds (.of g t)) ↔
      (g.Classifies t .result → t.Exposes "Messages" ∧ t.Exposes "Errors" ∧
        (g.Classifies t .resultOfValue → t.Exposes "Value")) ∧
      (g.Classifies t .envelope → t.Exposes "Messages" ∧ t.Exposes "Errors" ∧ t.Exposes "Code" ∧
        (g.Classifies t .envelopeOfValue → t.Exposes "Value")) ∧
      (g.Classifies t .headeredEnvelope → t.Exposes "Headers") ∧
      (g.Classifies t .streamableEnvelope → t.Exposes "Stream") ∧
      (g.Classifies t .code → t.Exposes "Definition") ∧
      (g.Classifies t .errorInfo → t.Exposes "ErrorDefinition" ∧ t.Exposes "Code" ∧ t.Exposes "Message" ∧
        t.Exposes "InstanceId") ∧
      (g.Classifies t .validationContext → t.Exposes "Definition") := by
  have ht : (Subject.of g t).type = t := rfl
  simp only [RequiredProperties.all, List.forall_mem_cons, List.not_mem_nil, false_imp_iff, implies_true,
    and_true, RequiredProperties.toRule_holds, has_of, ht, RequiredProperties.result,
    RequiredProperties.envelope, RequiredProperties.headeredEnvelope, RequiredProperties.streamableEnvelope,
    RequiredProperties.code, RequiredProperties.errorInfo, RequiredProperties.validationContext,
    Option.some.injEq, forall_eq', and_assoc, reduceCtorEq]

/-- The recommended rules together ask for the doctrine. -/
theorem recommended_hold : (∀ r ∈ Preset.rules .recommended {}, r.Holds (.of g t)) ↔ Doctrine g t := by
  rw [forall_recommended, forall_shapeRules, forall_successRules, forall_memberRules, requirements_hold,
    mustBeSealed_holds, mustBeGetOnly_holds, mustHideConstructors_holds, mustHaveFactory_holds,
    successNotSettable_holds, resultSuccessDerived_holds, envelopeSuccessDerived_holds, valueIsPrivate_holds,
    innerErrorsNotNull_holds, completeError_holds, successfulNotSettable_holds, successfulComputed_holds,
    mustBuild_holds, methodsChain_holds, mustBeStateless_holds]
  constructor
  · rintro ⟨⟨hsealed, hget, hctor, hfactory⟩, ⟨hset, hres, henv⟩,
      ⟨pres, penv, phead, pstream, pcode, perr, pval⟩,
      ⟨hvalue, hinner, hcomplete, hset', hcomp, hbuild, hchain, hstate⟩⟩
    exact {
      immutable := fun h => ⟨hsealed h, hget h, hctor h⟩
      result := fun h =>
        ⟨(pres h).1, (pres h).2.1, (pres h).2.2, fun p hp => ⟨hset (.inl h) p hp, hres h p hp⟩⟩
      envelope := fun h =>
        ⟨(penv h).1, (penv h).2.1, (penv h).2.2.1, (penv h).2.2.2,
          fun p hp => ⟨hset (.inr h) p hp, henv h p hp⟩⟩
      envelopeValue := hvalue
      headers := phead
      stream := pstream
      code := pcode
      errorInfo := fun h => ⟨(perr h).1, (perr h).2.1, (perr h).2.2.1, (perr h).2.2.2, hinner h⟩
      validation := fun h => ⟨pval h, hfactory h, fun p hp => ⟨hset' h p hp, hcomp h p hp⟩⟩
      errorBuilder := hcomplete
      metadataBuilder := hbuild
      chaining := hchain
      stateless := hstate }
  · intro d
    refine ⟨⟨fun h => (d.immutable h).1, fun h => (d.immutable h).2.1, fun h => (d.immutable h).2.2,
        fun h => (d.validation h).2.1⟩, ⟨?_, fun h p hp => ((d.result h).2.2.2 p hp).2,
        fun h p hp => ((d.envelope h).2.2.2.2 p hp).2⟩, ⟨?_, ?_, d.headers, d.stream, d.code, ?_,
        fun h => (d.validation h).1⟩, d.envelopeValue, fun h => (d.errorInfo h).2.2.2.2, d.errorBuilder,
        fun h p hp => ((d.validation h).2.2 p hp).1, fun h p hp => ((d.validation h).2.2 p hp).2,
        d.metadataBuilder, d.chaining, d.stateless⟩
    · -- the flag of a type that is a result or an envelope is asked for by either clause
      rintro (h | h) p hp
      · exact ((d.result h).2.2.2 p hp).1
      · exact ((d.envelope h).2.2.2.2 p hp).1
    · intro h
      obtain ⟨hm, he, hv, -⟩ := d.result h
      exact ⟨hm, he, hv⟩
    · intro h
      obtain ⟨hm, he, hc, hv, -⟩ := d.envelope h
      exact ⟨hm, he, hc, hv⟩
    · intro h
      obtain ⟨hd, hc, hm, hi, -⟩ := d.errorInfo h
      exact ⟨hd, hc, hm, hi⟩

/-! ## The evaluation -/

/-- The recommended rules concern no type that has no capability. -/
theorem applies_eq_false_of_isEmpty {c : Classification} (h : c.isEmpty = true) :
    ∀ r ∈ Preset.rules .recommended {}, r.applies c = false := by
  have hn := c.has_eq_false_of_isEmpty h
  have hk : ∀ k, c.inCategory k = false := by
    intro k
    rw [Bool.eq_false_iff, ne_eq, Classification.inCategory_iff]
    simp [hn]
  have ha : ∀ l, c.hasAny l = false := by
    intro l
    rw [Bool.eq_false_iff, ne_eq, Classification.hasAny_iff]
    simp [hn]
  rw [forall_recommended, forall_shapeRules, forall_successRules, forall_memberRules]
  exact ⟨⟨hk _, hk _, hk _, hk _⟩, ⟨ha _, hn _, hn _⟩, fun q _ => hn q.capability,
    ⟨hn _, hn _, hn _, hk _, hk _, hn _, hk _, hk _⟩⟩

theorem findings_standard (hc : t.isConcreteClass = true) {r : Rule} (hr : r ∈ Preset.rules .recommended {}) :
    Analyzer.standard.findings t r = [] ↔ r.Holds (.of .standard t) := by
  have hs : Analyzer.standard.registry = .standard := rfl
  have he : Analyzer.standard.isEnabled r = true := rfl
  unfold Analyzer.findings Analyzer.examines
  rw [hs, he, hc, Bool.true_and, Bool.and_true]
  cases h : (Registry.standard.classify t).isEmpty with
  | true =>
    have hn := applies_eq_false_of_isEmpty h r hr
    exact ⟨fun _ ha => absurd (hn.symm.trans ha) (by decide), fun _ => rfl⟩
  | false =>
    have hcl : (Subject.of .standard t).classification = Registry.standard.classify t := rfl
    unfold Rule.Holds
    rw [hcl]
    cases r.applies (Registry.standard.classify t) <;> simp

/-- A concrete class without suppressions has no violations exactly when it meets the doctrine. -/
theorem evaluate_standard_eq_nil_iff (hc : t.isConcreteClass = true) (hs : t.suppressions = []) :
    Analyzer.standard.evaluate t = [] ↔ Doctrine .standard t := by
  have hr : Analyzer.standard.rules = Preset.rules .recommended {} := rfl
  rw [Analyzer.evaluate_eq_nil_iff _ t hs, hr, ← recommended_hold]
  exact forall₂_congr fun r hr => findings_standard t hc hr

/-- A result that carries a number, whose value is assigned under this access and read under that one. -/
def quantityResult (setter getter : Access) : TypeDecl where
  name := "QuantityResult"
  isSealed := true
  interfaces := ["Zentient.Abstractions.Results.IResult<int>"]
  properties :=
    [.getOnly "Messages", .getOnly "Errors",
      { name := "Value", getter := some { access := getter }, setter := some setter },
      { name := "IsSuccess", getter := some { body := .computed ["Errors", "Any"] } }]
  constructors := [{ access := .owner }]

/-- With a protected setter and a protected internal getter the result meets the doctrine. It no longer does
when the setter is protected internal, the getter is protected, or the type is left open to derived types. -/
theorem doctrine_quantityResult :
    Doctrine .standard (quantityResult .derived .assemblyOrDerived) ∧
      ¬ Doctrine .standard (quantityResult .assemblyOrDerived .assemblyOrDerived) ∧
      ¬ Doctrine .standard (quantityResult .derived .derived) ∧
      ¬ Doctrine .standard { quantityResult .derived .assemblyOrDerived with isSealed := false } := by
  rw [← evaluate_standard_eq_nil_iff (quantityResult .derived .assemblyOrDerived) rfl rfl,
    ← evaluate_standard_eq_nil_iff (quantityResult .assemblyOrDerived .assemblyOrDerived) rfl rfl,
    ← evaluate_standard_eq_nil_iff (quantityResult .derived .derived) rfl rfl,
    ← evaluate_standard_eq_nil_iff { quantityResult .derived .assemblyOrDerived with isSealed := false } rfl rfl]
  decide +kernel

end TypeDoctrine
