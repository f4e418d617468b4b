import TypeDoctrine.Declaration
import TypeDoctrine.Json.Reader
import TypeDoctrine.Json.Record

/-!
# Declarations in JSON

Each part of a declaration is read by `ofJson?` and written by `toJson`. Every field is written; on reading,
a field that has a default may be left out.
-/

namespace TypeDoctrine

open Json (ofCount ofOption ofList ofStrings)

namespace Location

/-- The fields of a location. -/
def fieldNames : List String :=
  ["file", "line", "column", "offset", "length"]

/-- Reads a location. -/
def ofJson? (j : Json) : Option Location := do
  let f ← j.fields? fieldNames
  let file ← f.required? "file" Json.string?
  let line ← f.required? "line" Json.count?
  let column ← f.required? "column" Json.count?
  let offset ← f.optional? "offset" 0 Json.count?
  let length ← f.optional? "length" 0 Json.count?
  return { file, line, column, offset, length }

/-- Writes a location. -/
def toJson (l : Location) : Json :=
  .object [("file", .string l.file), ("line", ofCount l.line), ("column", ofCount l.column),
    ("offset", ofCount l.offset), ("length", ofCount l.length)]

end Location

namespace Access

/-- Reads an access. -/
def ofJson? : Json → Option Access :=
  Json.tag? ofName?

/-- Writes an access. -/
def toJson (a : Access) : Json :=
  .string a.name

end Access

namespace GetterBody

/-- The names that code mentions, under their field. -/
def membersField : String := "referenced_members"

/-- How deep a body may nest, so that a document with it stays within 127 levels. -/
def depthLimit : Nat := 122

/-- Reads the body of a kind with these members besides the kind. -/
def ofKind? (kind : String) (members : List (String × Json)) : Option GetterBody :=
  if kind == "auto" then some .auto
  else if kind == "computed" then do
    let f ← (Json.object members).fields? [membersField]
    return .computed (← f.required? membersField (Json.listOf? Json.string?))
  else none

/-- Reads the body of a kind with these items after the kind. -/
def ofItems? (kind : String) : List Json → Option GetterBody
  | [] => if kind == "auto" then some .auto else none
  | [names] => if kind == "computed" then (names.listOf? Json.string?).map .computed else none
  | _ => none

/-- Reads a body: its kind, and the names it mentions if it has code. The kind may stand anywhere among the
members, and members that are not needed are skipped, but all must be legible. -/
def ofJson? (j : Json) : Option GetterBody :=
  if !(j.isLegible && j.depth ≤ depthLimit) then none
  else
    match j with
    | .object members => do
      let f ← j.fields? ["kind"]
      let kind ← f.required? "kind" Json.string?
      ofKind? kind (members.filter (·.1 != "kind"))
    | .array (.string kind :: items) => ofItems? kind items
    | _ => none

/-- Writes a body. -/
def toJson : GetterBody → Json
  | .auto => .object [("kind", .string "auto")]
  | .computed members => .object [("kind", .string "computed"), (membersField, ofStrings members)]

end GetterBody

namespace Getter

/-- Reads a getter. -/
def ofJson? (j : Json) : Option Getter := do
  let f ← j.fields? ["accessibility", "body"]
  let access ← f.optional? "accessibility" .anyone Access.ofJson?
  let body ← f.optional? "body" .auto GetterBody.ofJson?
  return { access, body }

/-- Writes a getter. -/
def toJson (g : Getter) : Json :=
  .object [("accessibility", g.access.toJson), ("body", g.body.toJson)]

end Getter

namespace Property

/-- The fields of a property. -/
def fieldNames : List String :=
  ["name", "type_name", "is_nullable", "getter", "setter", "initializer", "location"]

/-- Reads a property. -/
def ofJson? (j : Json) : Option Property := do
  let f ← j.fields? fieldNames
  let name ← f.required? "name" Json.string?
  let typeName ← f.optional? "type_name" "" Json.string?
  let isNullable ← f.optional? "is_nullable" false Json.bool?
  let getter ← f.optional? "getter" none (Json.nullable? Getter.ofJson?)
  let setter ← f.optional? "setter" none (Json.nullable? Access.ofJson?)
  let initializer ← f.optional? "initializer" none (Json.nullable? Json.string?)
  let location ← f.optional? "location" {} Location.ofJson?
  return { name, typeName, isNullable, getter, setter, initializer, location }

/-- Writes a property. -/
def toJson (p : Property) : Json :=
  .object [("name", .string p.name), ("type_name", .string p.typeName), ("is_nullable", .bool p.isNullable),
    ("getter", ofOption Getter.toJson p.getter), ("setter", ofOption Access.toJson p.setter),
    ("initializer", ofOption .string p.initializer), ("location", p.location.toJson)]

end Property

namespace Constructor

/-- Reads a constructor. -/
def ofJson? (j : Json) : Option Constructor := do
  let f ← j.fields? ["accessibility", "parameter_count", "location"]
  let access ← f.optional? "accessibility" .anyone Access.ofJson?
  let parameterCount ← f.optional? "parameter_count" 0 Json.count?
  let location ← f.optional? "location" {} Location.ofJson?
  return { access, parameterCount, location }

/-- Writes a constructor. -/
def toJson (c : Constructor) : Json :=
  .object [("accessibility", c.access.toJson), ("parameter_count", ofCount c.parameterCount),
    ("location", c.location.toJson)]

end Constructor

namespace Field

/-- The fields of a field. -/
def fieldNames : List String :=
  ["name", "is_readonly", "is_const", "is_static", "location"]

/-- Reads a field. -/
def ofJson? (j : Json) : Option Field := do
  let f ← j.fields? fieldNames
  let name ← f.required? "name" Json.string?
  let isReadonly ← f.optional? "is_readonly" false Json.bool?
  let isConst ← f.optional? "is_const" false Json.bool?
  let isStatic ← f.optional? "is_static" false Json.bool?
  let location ← f.optional? "location" {} Location.ofJson?
  return { name, isReadonly, isConst, isStatic, location }

/-- Writes a field. -/
def toJson (f : Field) : Json :=
  .object [("name", .string f.name), ("is_readonly", .bool f.isReadonly), ("is_const", .bool f.isConst),
    ("is_static", .bool f.isStatic), ("location", f.location.toJson)]

end Field

namespace TypeRef

/-- Reads a type reference. -/
def ofJson? (j : Json) : Option TypeRef := do
  let f ← j.fields? ["name", "interfaces"]
  let name ← f.required? "name" Json.string?
  let interfaces ← f.optional? "interfaces" [] (Json.listOf? Json.string?)
  return { name, interfaces }

/-- Writes a type reference. -/
def toJson (r : TypeRef) : Json :=
  .object [("name", .string r.name), ("interfaces", ofStrings r.interfaces)]

end TypeRef

namespace Method

/-- The fields of a method. -/
def fieldNames : List String :=
  ["name", "is_static", "accessibility", "parameter_count", "return_type", "body", "location"]

/-- Reads the names that a body mentions. -/
def bodyOfJson? (j : Json) : Option (List String) := do
  let f ← j.fields? [GetterBody.membersField]
  f.required? GetterBody.membersField (Json.listOf? Json.string?)

/-- Writes the names that a body mentions. -/
def bodyToJson (members : List String) : Json :=
  .object [(GetterBody.membersField, ofStrings members)]

/-- Reads a method. -/
def ofJson? (j : Json) : Option Method := do
  let f ← j.fields? fieldNames
  let name ← f.required? "name" Json.string?
  let isStatic ← f.optional? "is_static" false Json.bool?
  let access ← f.optional? "accessibility" .anyone Access.ofJson?
  let parameterCount ← f.optional? "parameter_count" 0 Json.count?
  let returnType ← f.optional? "return_type" {} TypeRef.ofJson?
  let body ← f.optional? "body" none (Json.nullable? bodyOfJson?)
  let location ← f.optional? "location" {} Location.ofJson?
  return { name, isStatic, access, parameterCount, returnType, body, location }

/-- Writes a method. -/
def toJson (m : Method) : Json :=
  .object [("name", .string m.name), ("is_static", .bool m.isStatic), ("accessibility", m.access.toJson),
    ("parameter_count", ofCount m.parameterCount), ("return_type", m.returnType.toJson),
    ("body", ofOption bodyToJson m.body), ("location", m.location.toJson)]

end Method

namespace Suppression

/-- Reads a suppression. -/
def ofJson? (j : Json) : Option Suppression := do
  let f ← j.fields? ["rule", "justification"]
  let rule ← f.required? "rule" Json.string?
  let justification ← f.optional? "justification" none (Json.nullable? Json.string?)
  return { rule, justification }

/-- Writes a suppression. -/
def toJson (s : Suppression) : Json :=
  .object [("rule", .string s.rule), ("justification", ofOption .string s.justification)]

end Suppression

namespace TypeKind

/-- Reads a kind. -/
def ofJson? : Json → Option TypeKind :=
  Json.tag? ofName?

/-- Writes a kind. -/
def toJson (k : TypeKind) : Json :=
  .string k.name

end TypeKind

namespace TypeDecl

/-- The fields of a type. -/
def fieldNames : List String :=
  ["name", "qualified_name", "kind", "is_abstract", "is_sealed", "interfaces", "properties", "constructors",
    "methods", "fields", "suppressions", "location"]

/-- Reads a type. -/
def ofJson? (j : Json) : Option TypeDecl := do
  let f ← j.fields? fieldNames
  let name ← f.required? "name" Json.string?
  let qualifiedName ← f.optional? "qualified_name" none (Json.nullable? Json.string?)
  let kind ← f.optional? "kind" .classType TypeKind.ofJson?
  let isAbstract ← f.optional? "is_abstract" false Json.bool?
  let isSealed ← f.optional? "is_sealed" false Json.bool?
  let interfaces ← f.optional? "interfaces" [] (Json.listOf? Json.string?)
  let properties ← f.optional? "properties" [] (Json.listOf? Property.ofJson?)
  let constructors ← f.optional? "constructors" [] (Json.listOf? Constructor.ofJson?)
  let methods ← f.optional? "methods" [] (Json.listOf? Method.ofJson?)
  let fields ← f.optional? "fields" [] (Json.listOf? Field.ofJson?)
  let suppressions ← f.optional? "suppressions" [] (Json.listOf? Suppression.ofJson?)
  let location ← f.optional? "location" {} Location.ofJson?
  return {
    name, qualifiedName, kind, isAbstract, isSealed, interfaces, properties, constructors, methods, fields,
    suppressions, location }

/-- Writes a type. -/
def toJson (t : TypeDecl) : Json :=
  .object [("name", .string t.name), ("qualified_name", ofOption .string t.qualifiedName),
    ("kind", t.kind.toJson), ("is_abstract", .bool t.isAbstract), ("is_sealed", .bool t.isSealed),
    ("interfaces", ofStrings t.interfaces), ("properties", ofList Property.toJson t.properties),
    ("constructors", ofList Constructor.toJson t.constructors), ("methods", ofList Method.toJson t.methods),
    ("fields", ofList Field.toJson t.fields), ("suppressions", ofList Suppression.toJson t.suppressions),
    ("location", t.location.toJson)]

end TypeDecl

/-- Reads a document with a list of types. -/
def TypeDecl.parseAll? (text : String) : Option (List TypeDecl) :=
  (Json.parse? text).bind (Json.listOf? ofJson?)

end TypeDoctrine
