/-!
# JSON values

A value keeps what a reader of records can tell apart: integers from other numbers, the order of an
object's members, and members that occur twice.
-/

namespace TypeDoctrine

/-- A JSON value. -/
inductive Json where
  | null
  | bool (b : Bool)
  /-- A number of at most 64 bits written without fraction and exponent, negative zero apart. -/
  | integer (n : Int)
  /-- Any other number: `mantissa * 10 ^ exponent`. -/
  | real (mantissa exponent : Int)
  /-- A number too large to be read. -/
  | outOfRange
  | string (s : String)
  /-- Well formed, but a string in it, or the name of a member, stands for no text: it holds half of a
  surrogate pair. -/
  | illegible
  | array (items : List Json)
  | object (members : List (String × Json))
deriving Inhabited, Repr

namespace Json

mutual

/-- Whether every string stands for a text and every number is in range. -/
def isLegible : Json → Bool
  | .illegible | .outOfRange => false
  | .array items => areLegible items
  | .object members => membersLegible members
  | _ => true

/-- `isLegible` of every item. -/
def areLegible : List Json → Bool
  | [] => true
  | j :: items => isLegible j && areLegible items

/-- `isLegible` of every member. -/
def membersLegible : List (String × Json) → Bool
  | [] => true
  | (_, j) :: members => isLegible j && membersLegible members

end

mutual

/-- How deep arrays and objects nest. -/
def depth : Json → Nat
  | .array items => depthOfItems items + 1
  | .object members => depthOfMembers members + 1
  | _ => 0

/-- The deepest of some items. -/
def depthOfItems : List Json → Nat
  | [] => 0
  | j :: items => max (depth j) (depthOfItems items)

/-- The deepest of some members. -/
def depthOfMembers : List (String × Json) → Nat
  | [] => 0
  | (_, j) :: members => max (depth j) (depthOfMembers members)

end

mutual

/-- Keeps the last of several members of one name, at every depth. -/
def lastMembers : Json → Json
  | .array items => .array (lastMembersOfItems items)
  | .object members => .object (lastOfMembers members)
  | j => j

/-- `lastMembers` of every item. -/
def lastMembersOfItems : List Json → List Json
  | [] => []
  | j :: items => lastMembers j :: lastMembersOfItems items

/-- `lastMembers` of the members that no later one replaces. -/
def lastOfMembers : List (String × Json) → List (String × Json)
  | [] => []
  | (name, j) :: members =>
    if members.any (·.1 == name) then lastOfMembers members
    else (name, lastMembers j) :: lastOfMembers members

end

end Json

end TypeDoctrine
