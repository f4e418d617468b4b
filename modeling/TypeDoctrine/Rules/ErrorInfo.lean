import TypeDoctrine.Rule

/-!
# Error infos

The inner errors of an error info are never null: the declaration neither allows null nor starts with it.
A builder of error infos mentions every mandatory member in its `Build` method, as a property (`Code`) or
as the field behind it (`_code`).
-/

namespace TypeDoctrine.Rules

open TypeDoctrine.Text (trim dropEndWhile sameIgnoringCase)

/-- The property that holds the inner errors. -/
def innerErrors : String := "InnerErrors"

/-- Entry of the rule on inner errors. -/
def innerErrorsEntry : RuleEntry where
  code := "ZNT1005A"
  name := "error-info-inner-errors-non-nullable"
  category := .errorContract
  severity := .error
  title := "InnerErrors must be non-nullable"
  messageFormat :=
    "Property 'InnerErrors' on type '\x7B0\x7D' must be a non-nullable collection that is never initialized to null"
  description :=
    "Consumers iterate inner errors without null checks; an empty collection means none."

/-- Whether the type of a property allows null: for the property itself, or anywhere inside. -/
def allowsNull (p : Property) : Bool :=
  p.isNullable || p.typeName.toList.contains '?'

/-- The initializers that are null. -/
def nullInitializers : List String :=
  ["null", "null!", "default", "default!"]

/-- Whether an initializer is null; blanks around it and semicolons at its end do not count. -/
def isNullInitializer (text : String) : Bool :=
  nullInitializers.contains (String.ofList (trim (dropEndWhile (· == ';') (trim text.toList))))

/-- Whether a property starts as null. -/
def startsNull (p : Property) : Bool :=
  p.initializer.any isNullInitializer

/-- `InnerErrors` of an error info is not null. -/
def innerErrorsNotNull : Rule where
  entry := innerErrorsEntry
  applies c := c.has .errorInfo
  check s :=
    match s.property? innerErrors with
    | some p =>
      if allowsNull p || startsNull p then [innerErrorsEntry.violation p.location [s.type.name]] else []
    | none => []

/-- The members that a builder of error infos sets. -/
def mandatoryMembers : List String :=
  ["ErrorDefinition", "Code", "Message", "InstanceId"]

/-- Whether a name is that of a member or of the field behind it: underscores at its start and case do
not count. -/
def isMemberName (member name : String) : Bool :=
  sameIgnoringCase (String.ofList (name.toList.dropWhile (· == '_'))) member

/-- The names that the first `Build` method with a body mentions. -/
def buildBody? (t : TypeDecl) : Option (List String) :=
  (t.methods.filter (·.name == "Build")).findSome? (·.body)

/-- The mandatory members that a body never mentions. -/
def missingMembers (body : List String) : List String :=
  mandatoryMembers.filter fun member => !body.any (isMemberName member)

/-- Entry of the rule on builders of error infos. -/
def completeErrorEntry : RuleEntry where
  code := "ZNT1005B"
  name := "error-info-builder-sets-required"
  category := .errorContract
  severity := .error
  title := "Error info builders must set all mandatory members"
  messageFormat := "Build method on builder '\x7B0\x7D' never sets mandatory member(s): \x7B1\x7D"
  description :=
    "An error info built without its definition, code, message or instance id is incomplete."

/-- `Build` of a builder of error infos mentions every mandatory member. -/
def completeError : Rule where
  entry := completeErrorEntry
  applies c := c.has .errorInfoBuilder
  check s :=
    match buildBody? s.type with
    | some body =>
      if (missingMembers body).isEmpty then []
      else [s.atType completeErrorEntry [s.type.name, ", ".intercalate (missingMembers body)]]
    | none => []

end TypeDoctrine.Rules
