/-!
# ASCII letters and digits

Comparison of names that ignores the case of ASCII letters, and unsigned numbers in decimal digits.
-/

namespace TypeDoctrine.Text

/-- Equality of names up to the case of ASCII letters. -/
def sameIgnoringCase (a b : String) : Bool :=
  a.toList.map Char.toLower == b.toList.map Char.toLower

/-- One past the largest number a count, a line or an arity can hold. -/
def wordLimit : Nat := Nat.pow 2 64

/-- The value of a digit in any base up to sixteen. -/
def digitValue? (c : Char) : Option Nat :=
  if c.isDigit then some (c.toNat - '0'.toNat)
  else if 'a' ≤ c && c ≤ 'f' then some (c.toNat - 'a'.toNat + 10)
  else if 'A' ≤ c && c ≤ 'F' then some (c.toNat - 'A'.toNat + 10)
  else none

/-- The number that digits of a base write, most significant first. -/
def ofDigits (base : Nat) (digits : List Char) : Nat :=
  digits.foldl (fun n c => n * base + (digitValue? c).getD 0) 0

/-- Reads an unsigned number: one or more decimal digits, below `wordLimit`. -/
def natural? (cs : List Char) : Option Nat :=
  if cs.isEmpty || !cs.all Char.isDigit then none
  else
    let n := ofDigits 10 cs
    if n < wordLimit then some n else none

end TypeDoctrine.Text
