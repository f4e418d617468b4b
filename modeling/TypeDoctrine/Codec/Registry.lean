import TypeDoctrine.Json.Record
import TypeDoctrine.Registry

/-!
# Capabilities and markers in JSON
-/

namespace TypeDoctrine

open Json (ofOption ofList)

namespace Capability

/-- Reads a capability. -/
def ofJson? : Json → Option Capability :=
  Json.tag? ofName?

/-- Writes a capability. -/
def toJson (c : Capability) : Json :=
  .string c.name

end Capability

namespace Category

/-- Reads a category. -/
def ofJson? : Json → Option Category :=
  Json.tag? ofName?

/-- Writes a category. -/
def toJson (c : Category) : Json :=
  .string c.name

end Category

namespace Marker

/-- Reads a marker. -/
def ofJson? (j : Json) : Option Marker := do
  let f ← j.fields? ["name", "arity", "capabilities"]
  let name ← f.required? "name" Json.string?
  let arity ← f.optional? "arity" none (Json.nullable? Json.count?)
  let capabilities ← f.required? "capabilities" (Json.listOf? Capability.ofJson?)
  return { name, arity := arity.map (·.toNat), capabilities }

/-- Writes a marker. -/
def toJson (m : Marker) : Json :=
  .object [("name", .string m.name), ("arity", ofOption (fun n => .integer n) m.arity),
    ("capabilities", ofList Capability.toJson m.capabilities)]

end Marker

namespace Classification

/-- Writes a classification. -/
def toJson (c : Classification) : Json :=
  .object [("capabilities", ofList Capability.toJson c.capabilities),
    ("categories", ofList Category.toJson c.categories)]

end Classification

end TypeDoctrine
