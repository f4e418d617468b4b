import TypeDoctrine.GenericName
import TypeDoctrine.Location
import TypeDoctrine.Source.Identifiers

/-!
# Type declarations

What the rules need to know of a declared type: its kind, the interfaces it implements, and the shape of
its properties, constructors, methods and fields. Bodies are reduced to the names that they mention.
-/

namespace TypeDoctrine

/-- Who may use a member. -/
inductive Access where
  /-- Declared public. -/
  | anyone
  /-- Declared protected internal. -/
  | assemblyOrDerived
  /-- Declared internal. -/
  | assembly
  /-- Declared protected. -/
  | derived
  /-- Declared private protected. -/
  | assemblyAndDerived
  /-- Declared private. -/
  | owner
deriving DecidableEq, Repr, Inhabited

namespace Access

/-- All accesses, in order. -/
def all : List Access :=
  [.anyone, .assemblyOrDerived, .assembly, .derived, .assemblyAndDerived, .owner]

/-- The name of an access. -/
def name : Access → String
  | .anyone => "public"
  | .assemblyOrDerived => "protected-internal"
  | .assembly => "internal"
  | .derived => "protected"
  | .assemblyAndDerived => "private-protected"
  | .owner => "private"

/-- The access with this exact name. -/
def ofName? (s : String) : Option Access :=
  all.find? (·.name == s)

/-- Whether code that is neither in the type nor derived from it can use the member. -/
def isVisible : Access → Bool
  | .anyone | .assemblyOrDerived | .assembly => true
  | .derived | .assemblyAndDerived | .owner => false

end Access

/-- The body of a getter: none of its own, or code that mentions these names. -/
inductive GetterBody where
  | auto
  | computed (members : List String)
deriving DecidableEq, Repr, Inhabited

namespace GetterBody

/-- The body with this source. -/
def ofSource (source : String) : GetterBody :=
  .computed (Source.identifiers source)

/-- Whether the getter has code. -/
def isComputed : GetterBody → Bool
  | .auto => false
  | .computed _ => true

/-- Whether the code mentions a name. -/
def mentions (body : GetterBody) (name : String) : Bool :=
  match body with
  | .auto => false
  | .computed members => members.contains name

end GetterBody

/-- The getter of a property. -/
structure Getter where
  access : Access := .anyone
  body : GetterBody := .auto
deriving DecidableEq, Repr, Inhabited

/-- A declared property. -/
structure Property where
  name : String := ""
  typeName : String := ""
  isNullable : Bool := false
  getter : Option Getter := none
  setter : Option Access := none
  initializer : Option String := none
  location : Location := {}
deriving DecidableEq, Repr, Inhabited

namespace Property

/-- A property that can only be read. -/
def getOnly (name : String) : Property :=
  { name, getter := some {} }

/-- A property whose getter has this source. -/
def ofSource (name source : String) : Property :=
  { name, getter := some { body := .ofSource source } }

/-- Whether outside code can assign the property. -/
def hasVisibleSetter (p : Property) : Bool :=
  p.setter.any Access.isVisible

/-- Whether outside code can read the property. -/
def isReadable (p : Property) : Bool :=
  p.getter.any (·.access.isVisible)

/-- Whether the property's getter has code. -/
def isComputed (p : Property) : Bool :=
  p.getter.any (·.body.isComputed)

end Property

/-- A declared constructor. -/
structure Constructor where
  access : Access := .anyone
  parameterCount : UInt64 := 0
  location : Location := {}
deriving DecidableEq, Repr, Inhabited

/-- A declared field. -/
structure Field where
  name : String := ""
  isReadonly : Bool := false
  isConst : Bool := false
  isStatic : Bool := false
  location : Location := {}
deriving DecidableEq, Repr, Inhabited

namespace Field

/-- Whether instances can change the field after their construction. -/
def isMutable (f : Field) : Bool :=
  !(f.isStatic || f.isConst || f.isReadonly)

end Field

/-- A type as a method names it, with the interfaces that it is known to implement. -/
structure TypeRef where
  name : String := ""
  interfaces : List String := []
deriving DecidableEq, Repr, Inhabited

/-- A declared method. Its body, if known, is the names that it mentions. -/
structure Method where
  name : String := ""
  isStatic : Bool := false
  access : Access := .anyone
  parameterCount : UInt64 := 0
  returnType : TypeRef := {}
  body : Option (List String) := none
  location : Location := {}
deriving DecidableEq, Repr, Inhabited

namespace Method

/-- The method with the body of this source. -/
def withSource (m : Method) (source : String) : Method :=
  { m with body := some (Source.identifiers source) }

end Method

/-- A request on a type not to report a rule: the rule's code or name, or `all`. -/
structure Suppression where
  rule : String
  justification : Option String := none
deriving DecidableEq, Repr, Inhabited

namespace Suppression

/-- Whether a suppression covers the rule with this code and name. Codes match in any case. -/
def covers (s : Suppression) (code name : String) : Bool :=
  s.rule == "all" || Text.sameIgnoringCase s.rule code || s.rule == name

end Suppression

/-- The kind of a declared type. -/
inductive TypeKind where
  | classType
  | interfaceType
  | structType
deriving DecidableEq, Repr, Inhabited

namespace TypeKind

/-- All kinds, in order. -/
def all : List TypeKind :=
  [.classType, .interfaceType, .structType]

/-- The name of a kind. -/
def name : TypeKind → String
  | .classType => "class"
  | .interfaceType => "interface"
  | .structType => "struct"

/-- The kind with this exact name. -/
def ofName? (s : String) : Option TypeKind :=
  all.find? (·.name == s)

end TypeKind

/-- A declared type. -/
structure TypeDecl where
  name : String := ""
  qualifiedName : Option String := none
  kind : TypeKind := .classType
  isAbstract : Bool := false
  isSealed : Bool := false
  interfaces : List String := []
  properties : List Property := []
  constructors : List Constructor := []
  methods : List Method := []
  fields : List Field := []
  suppressions : List Suppression := []
  location : Location := {}
deriving DecidableEq, Repr, Inhabited

namespace TypeDecl

/-- Whether the type is a class that has instances. -/
def isConcreteClass (t : TypeDecl) : Bool :=
  t.kind == .classType && !t.isAbstract

/-- The first property of a name. -/
def property? (t : TypeDecl) (name : String) : Option Property :=
  t.properties.find? (·.name == name)

/-- The first method of a name. -/
def method? (t : TypeDecl) (name : String) : Option Method :=
  t.methods.find? (·.name == name)

/-- Whether a reference names the type, by its name or its qualified name, type arguments aside. -/
def isNamedBy (t : TypeDecl) (ref : TypeRef) : Bool :=
  let base := (GenericName.parse ref.name).base
  base == (GenericName.parse t.name).base ||
    t.qualifiedName.any fun q => (GenericName.parse q).base == base

end TypeDecl

end TypeDoctrine
