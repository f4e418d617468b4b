import TypeDoctrine.Toml.Value

/-!
# Tables under construction

A table can be opened by a header, or come to be because a header or a dotted key leads through it. How it
came to be decides who may add to it: dotted keys extend only tables that no header opened, and a header
opens only a table that no dotted key made.
-/

namespace TypeDoctrine.Toml

/-- How a table came to be. -/
inductive Origin where
  /-- A header opened it. -/
  | header
  /-- A header leads through it. -/
  | implied
  /-- A dotted key made it. -/
  | dotted
deriving DecidableEq, Repr

/-- What stands under a key. -/
inductive Item where
  | value (v : Value)
  | table (origin : Origin) (entries : List (String × Item))
  /-- The tables opened by headers in double brackets; the last is the one that is open. -/
  | tables (earlier : List (List (String × Item))) (last : List (String × Item))
deriving Inhabited, Repr

/-- The entries of a table. -/
abbrev Entries := List (String × Item)

namespace Entries

/-- Replaces what stands under a key by what `f` makes of it. A new key goes to the end. -/
def alter (key : String) (f : Option Item → Option Item) : Entries → Option Entries
  | [] => (f none).map fun item => [(key, item)]
  | (k, item) :: rest =>
    if k == key then (f (some item)).map fun item => (k, item) :: rest
    else (alter key f rest).map ((k, item) :: ·)

/-- Changes the table at the end of a path. Tables on the way that do not exist are made with origin `made`;
of several tables under one key the way leads through the last. It never leads through a value, and the
way of a dotted key never through a table that a header opened. -/
def within (made : Origin) (f : Origin → Entries → Option Entries) :
    List String → Origin → Entries → Option Entries
  | [], origin, entries => f origin entries
  | key :: path, _, entries =>
    entries.alter key fun
      | none => (within made f path made []).map (.table made)
      | some (.value _) => none
      | some (.table origin inner) =>
        if made == .dotted && origin == .header then none
        else (within made f path origin inner).map (.table origin)
      | some (.tables earlier last) => (within made f path .header last).map (.tables earlier)

/-- Adds a value under a dotted key: a path and a last key, which must be new. -/
def insert (path : List String) (key : String) (v : Value) (entries : Entries) : Option Entries :=
  entries.within .dotted (fun origin inner =>
    if path.isEmpty || origin == .dotted then
      inner.alter key fun
        | none => some (.value v)
        | some _ => none
    else none) path .header

/-- Opens a table and puts it behind what stands beside it. A table that was only implied keeps what it
holds. -/
def openTable (path : List String) (key : String) (entries : Entries) : Option Entries :=
  entries.within .implied (fun _ inner =>
    match inner.lookup key with
    | none => some (inner ++ [(key, .table .header [])])
    | some (.table .implied found) => some (inner.filter (·.1 != key) ++ [(key, .table .header found)])
    | some _ => none) path .header

/-- Opens one more of the tables under a key. -/
def openNext (path : List String) (key : String) (entries : Entries) : Option Entries :=
  entries.within .implied (fun _ inner =>
    inner.alter key fun
      | none => some (.tables [] [])
      | some (.tables earlier last) => some (.tables (earlier ++ [last]) [])
      | some _ => none) path .header

end Entries

mutual

/-- The value of a finished item. -/
def Item.toValue : Item → Value
  | .value v => v
  | .table _ entries => .table (entriesToValues entries)
  | .tables earlier last => .array (tablesToValues earlier ++ [.table (entriesToValues last)])

/-- The values of finished entries. -/
def entriesToValues : List (String × Item) → List (String × Value)
  | [] => []
  | (key, item) :: rest => (key, item.toValue) :: entriesToValues rest

/-- The values of finished tables. -/
def tablesToValues : List (List (String × Item)) → List Value
  | [] => []
  | entries :: rest => .table (entriesToValues entries) :: tablesToValues rest

end

end TypeDoctrine.Toml
