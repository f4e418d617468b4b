import TypeDoctrine.Json.Value

/-!
# Records in JSON

A record is an object that has its fields by name, in any order and among others, or an array that has them
in order. A field that is absent may have a default; a field that an object has twice is an error.
-/

namespace TypeDoctrine.Json

/-- What the fields of a record hold. -/
abbrev Fields := String → Option Json

/-- Whether a name occurs at most once among members. -/
def atMostOnce (members : List (String × Json)) (name : String) : Bool :=
  members.countP (·.1 == name) ≤ 1

/-- The fields of a record with these names. -/
def fields? (names : List String) : Json → Option Fields
  | .object members => if names.all (atMostOnce members) then some fun name => members.lookup name else none
  | .array items => if items.length ≤ names.length then some fun name => (names.zip items).lookup name else none
  | _ => none

namespace Fields

/-- A field that must be there. -/
def required? (f : Fields) (name : String) (read : Json → Option α) : Option α :=
  (f name).bind read

/-- A field with a default. -/
def optional? (f : Fields) (name : String) (default : α) (read : Json → Option α) : Option α :=
  match f name with
  | some j => read j
  | none => some default

end Fields

/-- A string. -/
def string? : Json → Option String
  | .string s => some s
  | _ => none

/-- A boolean. -/
def bool? : Json → Option Bool
  | .bool b => some b
  | _ => none

/-- A count of 64 bits. -/
def count? : Json → Option UInt64
  | .integer (.ofNat n) => if n < UInt64.size then some (UInt64.ofNat n) else none
  | _ => none

/-- A value that may be `null`. -/
def nullable? (read : Json → Option α) : Json → Option (Option α)
  | .null => some none
  | j => (read j).map some

/-- An array of values. -/
def listOf? (read : Json → Option α) : Json → Option (List α)
  | .array items => items.mapM read
  | _ => none

/-- One of several named values: its name, or an object with its name as the one member, which is `null`. -/
def tag? (ofName? : String → Option α) : Json → Option α
  | .string name => ofName? name
  | .object [(name, .null)] => ofName? name
  | _ => none

/-- A count. -/
def ofCount (n : UInt64) : Json :=
  .integer n.toNat

/-- A value or `null`. -/
def ofOption (write : α → Json) : Option α → Json
  | some a => write a
  | none => .null

/-- An array of values. -/
def ofList (write : α → Json) (as : List α) : Json :=
  .array (as.map write)

/-- An array of strings. -/
def ofStrings (ss : List String) : Json :=
  ofList .string ss

end TypeDoctrine.Json
