import TypeDoctrine.Number.Binary64
import TypeDoctrine.Text.Ascii

/-!
# Numbers

Integers of 64 bits with a sign, in decimal or, without a sign, in base 16, 8 or 2; and floats. An
underscore may stand between two digits. A decimal has no leading zero.
-/

namespace TypeDoctrine.Toml

open TypeDoctrine.Text (digitValue? ofDigits)

/-- A digit of a base. -/
def isDigitOf (base : Nat) (c : Char) : Bool :=
  (digitValue? c).any (· < base)

/-- Takes the digits that continue a number, without the underscores between them. -/
def moreDigits (base : Nat) : List Char → List Char × List Char
  | [] => ([], [])
  | c :: rest =>
    if isDigitOf base c then
      let (ds, rest) := moreDigits base rest
      (c :: ds, rest)
    else if c == '_' && rest.head?.any (isDigitOf base) then moreDigits base rest
    else ([], c :: rest)

/-- Takes one or more digits. -/
def digitsOf? (base : Nat) (cs : List Char) : Option (List Char × List Char) :=
  if cs.head?.any (isDigitOf base) then some (moreDigits base cs) else none

/-- Takes a sign, if there is one: whether it is a minus. -/
def sign : List Char → Bool × List Char
  | '+' :: rest => (false, rest)
  | '-' :: rest => (true, rest)
  | cs => (false, cs)

/-- Takes the digits of a decimal: a zero alone, or digits that start with another. -/
def whole? : List Char → Option (List Char × List Char)
  | '0' :: rest => some (['0'], rest)
  | cs => digitsOf? 10 cs

/-- A number with a sign, within 64 bits. -/
def int64? (negative : Bool) (n : Nat) : Option Int :=
  if negative then (if n ≤ Nat.pow 2 63 then some (-n) else none)
  else if n < Nat.pow 2 63 then some n
  else none

/-- The base that a letter after a zero stands for. -/
def baseOf? : Char → Option Nat
  | 'x' => some 16
  | 'o' => some 8
  | 'b' => some 2
  | _ => none

/-- Takes an integer in base 16, 8 or 2. -/
def basedInteger? : List Char → Option (Int × List Char)
  | '0' :: letter :: rest => do
    let base ← baseOf? letter
    let (ds, rest) ← digitsOf? base rest
    let n ← int64? false (ofDigits base ds)
    return (n, rest)
  | _ => none

/-- Takes a decimal integer. -/
def decimalInteger? (cs : List Char) : Option (Int × List Char) := do
  let (negative, cs) := sign cs
  let (ds, cs) ← whole? cs
  let n ← int64? negative (ofDigits 10 ds)
  return (n, cs)

/-- Takes an integer. -/
def integer? (cs : List Char) : Option (Int × List Char) :=
  match basedInteger? cs with
  | some taken => some taken
  | none => decimalInteger? cs

/-- Takes the point and the digits after it. -/
def fractionDigits? : List Char → Option (List Char × List Char)
  | '.' :: rest => digitsOf? 10 rest
  | _ => none

/-- Takes an exponent. -/
def exponent? : List Char → Option (Int × List Char)
  | 'e' :: rest | 'E' :: rest => do
    let (negative, rest) := sign rest
    let (ds, rest) ← digitsOf? 10 rest
    let n : Int := ofDigits 10 ds
    return (if negative then -n else n, rest)
  | _ => none

/-- The float of a whole part, a fraction and an exponent. One that is too large is none, except below
zero. -/
def ofParts? (negative : Bool) (whole fraction : List Char) (exponent : Int) : Option Binary64 :=
  match Binary64.ofDecimal negative (ofDigits 10 (whole ++ fraction)) (exponent - fraction.length) with
  | .infinite false => none
  | x => some x

/-- Takes a float with a fraction, an exponent or both. -/
def decimalFloat? (cs : List Char) : Option (Binary64 × List Char) := do
  let (negative, cs) := sign cs
  let (whole, cs) ← whole? cs
  match fractionDigits? cs with
  | some (fraction, cs) =>
    let (e, cs) := (exponent? cs).getD (0, cs)
    let x ← ofParts? negative whole fraction e
    return (x, cs)
  | none =>
    let (e, cs) ← exponent? cs
    let x ← ofParts? negative whole [] e
    return (x, cs)

/-- Takes infinity or the value that is no number. -/
def specialFloat? (cs : List Char) : Option (Binary64 × List Char) :=
  match sign cs with
  | (negative, 'i' :: 'n' :: 'f' :: rest) => some (.infinite negative, rest)
  | (_, 'n' :: 'a' :: 'n' :: rest) => some (.nan, rest)
  | _ => none

/-- Takes a float. -/
def float? (cs : List Char) : Option (Binary64 × List Char) :=
  match decimalFloat? cs with
  | some taken => some taken
  | none => specialFloat? cs

end TypeDoctrine.Toml
