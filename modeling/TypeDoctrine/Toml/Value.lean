import TypeDoctrine.Number.Shortest
import TypeDoctrine.Toml.Moment

/-!
# Values of configuration files
-/

namespace TypeDoctrine.Toml

/-- A value. The keys of a table are distinct. -/
inductive Value where
  | string (s : String)
  | integer (n : Int)
  | float (x : Binary64)
  | boolean (b : Bool)
  | moment (m : Moment)
  | array (items : List Value)
  | table (entries : List (String × Value))
deriving Inhabited, Repr

end TypeDoctrine.Toml
