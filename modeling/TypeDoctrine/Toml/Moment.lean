import TypeDoctrine.Text.Blank
import TypeDoctrine.Text.Decimal

/-!
# Dates and times

A moment is a date, a time of day, or both with an optional offset from universal time. A date and its
time may be divided by `T`, `t` or a space; `Moment.text` always writes `T`. Fractions of a second are
kept to nine digits.
-/

namespace TypeDoctrine.Toml

open TypeDoctrine.Text (digits decimal digitChar ofDigits dropEndWhile)

/-- A day of the calendar. -/
structure Date where
  year : Nat
  month : Nat
  day : Nat
deriving DecidableEq, Repr

/-- A time of day. -/
structure Time where
  hour : Nat
  minute : Nat
  second : Nat
  nanosecond : Nat
deriving DecidableEq, Repr

/-- The offset from universal time. -/
inductive Offset where
  | universal
  | minutes (n : Int)
deriving DecidableEq, Repr

/-- A date, a time, or both. -/
inductive Moment where
  | date (d : Date)
  | time (t : Time)
  | dateTime (d : Date) (t : Time) (offset : Option Offset)
deriving DecidableEq, Repr

/-! ## Writing -/

/-- A number with zeros before it up to a width. -/
def padded (width n : Nat) : String :=
  String.ofList (List.replicate (width - (digits n).length) '0' ++ digits n)

namespace Date

/-- Year, month and day. -/
def text (d : Date) : String :=
  padded 4 d.year ++ "-" ++ padded 2 d.month ++ "-" ++ padded 2 d.day

/-- A year with 366 days. -/
def isLeap (year : Nat) : Bool :=
  year % 4 == 0 && (year % 100 != 0 || year % 400 == 0)

/-- The number of days of a month. -/
def daysIn (year month : Nat) : Nat :=
  if month == 2 then (if isLeap year then 29 else 28)
  else if month == 4 || month == 6 || month == 9 || month == 11 then 30
  else 31

end Date

/-- Hour, minute and second, and the fraction if there is one. -/
def Time.text (t : Time) : String :=
  padded 2 t.hour ++ ":" ++ padded 2 t.minute ++ ":" ++ padded 2 t.second ++
    if t.nanosecond == 0 then ""
    else "." ++ String.ofList (dropEndWhile (· == '0') (padded 9 t.nanosecond).toList)

/-- `Z`, or sign, hours and minutes. -/
def Offset.text : Offset → String
  | .universal => "Z"
  | .minutes n =>
    (if n < 0 then "-" else "+") ++ padded 2 (n.natAbs / 60) ++ ":" ++ padded 2 (n.natAbs % 60)

/-- The text of a moment. -/
def Moment.text : Moment → String
  | .date d => d.text
  | .time t => t.text
  | .dateTime d t offset => d.text ++ "T" ++ t.text ++ (offset.map Offset.text).getD ""

/-! ## Reading -/

/-- Takes a number of exactly `width` digits from `low` to `high`. -/
def field? (width low high : Nat) (cs : List Char) : Option (Nat × List Char) :=
  let ds := cs.take width
  let n := ofDigits 10 ds
  if ds.length == width && ds.all Char.isDigit && low ≤ n && n ≤ high then some (n, cs.drop width) else none

/-- Takes one given character. -/
def mark? (c : Char) : List Char → Option (List Char)
  | d :: rest => if c == d then some rest else none
  | [] => none

/-- Takes a date. -/
def date? (cs : List Char) : Option (Date × List Char) := do
  let (year, cs) ← field? 4 0 9999 cs
  let cs ← mark? '-' cs
  let (month, cs) ← field? 2 1 12 cs
  let cs ← mark? '-' cs
  let (day, cs) ← field? 2 1 (Date.daysIn year month) cs
  return ({ year, month, day }, cs)

/-- The nanoseconds of the digits of a fraction; those after the ninth are dropped. -/
def nanoseconds (ds : List Char) : Nat :=
  ofDigits 10 (ds.take 9) * Nat.pow 10 (9 - ds.length)

/-- Takes a fraction of a second, if there is one. -/
def fraction (cs : List Char) : Nat × List Char :=
  match cs with
  | '.' :: rest =>
    let ds := rest.takeWhile Char.isDigit
    if ds.isEmpty then (0, cs) else (nanoseconds ds, rest.drop ds.length)
  | _ => (0, cs)

/-- Takes a time. The sixtieth second is a leap second. -/
def time? (cs : List Char) : Option (Time × List Char) := do
  let (hour, cs) ← field? 2 0 23 cs
  let cs ← mark? ':' cs
  let (minute, cs) ← field? 2 0 59 cs
  let cs ← mark? ':' cs
  let (second, cs) ← field? 2 0 60 cs
  let (nanosecond, cs) := fraction cs
  return ({ hour, minute, second, nanosecond }, cs)

/-- Takes hours and minutes of an offset. -/
def offsetMinutes? (cs : List Char) : Option (Nat × List Char) := do
  let (hour, cs) ← field? 2 0 23 cs
  let cs ← mark? ':' cs
  let (minute, cs) ← field? 2 0 59 cs
  return (hour * 60 + minute, cs)

/-- Takes an offset. -/
def offset? : List Char → Option (Offset × List Char)
  | 'Z' :: rest | 'z' :: rest => some (.universal, rest)
  | '+' :: rest => (offsetMinutes? rest).map fun (n, rest) => (.minutes n, rest)
  | '-' :: rest => (offsetMinutes? rest).map fun (n, rest) => (.minutes (-n), rest)
  | _ => none

/-- Takes the time after a date, with what divides them. -/
def timeOfDate? : List Char → Option (Time × List Char)
  | 'T' :: rest | 't' :: rest | ' ' :: rest => time? rest
  | _ => none

/-- Takes what follows a date. -/
def afterDate (d : Date) (cs : List Char) : Moment × List Char :=
  match timeOfDate? cs with
  | none => (.date d, cs)
  | some (t, cs) =>
    match offset? cs with
    | none => (.dateTime d t none, cs)
    | some (o, cs) => (.dateTime d t (some o), cs)

/-- Takes a moment. -/
def moment? (cs : List Char) : Option (Moment × List Char) :=
  match date? cs with
  | some (d, cs) => some (afterDate d cs)
  | none => (time? cs).map fun (t, cs) => (.time t, cs)

/-- The moment that a text is. -/
def Moment.ofText? (text : String) : Option Moment :=
  match moment? text.toList with
  | some (m, []) => some m
  | _ => none

end TypeDoctrine.Toml
