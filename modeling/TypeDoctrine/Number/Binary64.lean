/-!
# Binary64 numbers

The values of 64-bit floating point, and the value nearest to a decimal. Everything is computed on
natural numbers, so nothing is lost before the one rounding.
-/

namespace TypeDoctrine

/-- A 64-bit floating-point value. -/
inductive Binary64 where
  /-- `significand * 2 ^ exponent`, with a sign. -/
  | finite (negative : Bool) (significand : Nat) (exponent : Int)
  | infinite (negative : Bool)
  | nan
deriving DecidableEq, Repr, Inhabited

namespace Binary64

/-- The least exponent. -/
def minExponent : Int := -1074

/-- The largest exponent of a finite value. -/
def maxExponent : Int := 971

/-- One past the largest significand. -/
def significandLimit : Nat := Nat.pow 2 53

/-- The natural number nearest to a quotient; of two equally near, the even one. -/
def roundDiv (num den : Nat) : Nat :=
  let floor := num / den
  match compare (2 * (num % den)) den with
  | .lt => floor
  | .gt => floor + 1
  | .eq => floor + floor % 2

/-- `num * 2 ^ (-exponent) / den`, rounded. -/
def roundAt (num den : Nat) (exponent : Int) : Nat :=
  roundDiv (num * Nat.pow 2 (-exponent).toNat) (den * Nat.pow 2 exponent.toNat)

/-- The exponent at which a quotient is rounded: the one that gives a significand of 53 bits, but not
below the least. -/
def exponentFor (num den : Nat) : Int :=
  let guess : Int := (num.log2 : Int) - (den.log2 : Int) - 53
  let small := num * Nat.pow 2 (-guess).toNat < significandLimit * (den * Nat.pow 2 guess.toNat)
  max minExponent (if small then guess else guess + 1)

/-- The value with this significand and exponent, where a significand that was rounded up to its limit
moves to the next exponent. -/
def normalized (negative : Bool) (significand : Nat) (exponent : Int) : Binary64 :=
  let (m, e) := if significand == significandLimit then (significand / 2, exponent + 1) else (significand, exponent)
  if e > maxExponent then .infinite negative else .finite negative m e

/-- The value nearest to `num / den`; of two equally near, the one with an even significand. -/
def ofQuotient (negative : Bool) (num den : Nat) : Binary64 :=
  if num == 0 then .finite negative 0 minExponent
  else
    let e := exponentFor num den
    normalized negative (roundAt num den e) e

/-- The number of decimal digits of a positive number. -/
def decimalLength (n : Nat) : Nat :=
  if n < 10 then 1 else decimalLength (n / 10) + 1
termination_by n
decreasing_by omega

/-- The value nearest to `mantissa * 10 ^ exponent`. From `10 ^ 310` on the value is infinite, and below
`10 ^ (-330)` it is zero, so no large power is computed. -/
def ofDecimal (negative : Bool) (mantissa : Nat) (exponent : Int) : Binary64 :=
  let magnitude := (decimalLength mantissa : Int) + exponent
  if mantissa == 0 then .finite negative 0 minExponent
  else if magnitude > 310 then .infinite negative
  else if magnitude < -330 then .finite negative 0 minExponent
  else ofQuotient negative (mantissa * Nat.pow 10 exponent.toNat) (Nat.pow 10 (-exponent).toNat)

/-- Neither infinite nor undefined. -/
def isFinite : Binary64 → Bool
  | .finite .. => true
  | _ => false

/-- The value nearest to a product. Zero times an infinite value is undefined. -/
def mul : Binary64 → Binary64 → Binary64
  | .finite s m e, .finite t n f => ofQuotient (s != t) (m * n * Nat.pow 2 (e + f).toNat) (Nat.pow 2 (-(e + f)).toNat)
  | .finite s m _, .infinite t | .infinite s, .finite t m _ => if m == 0 then .nan else .infinite (s != t)
  | .infinite s, .infinite t => .infinite (s != t)
  | _, _ => .nan

end Binary64

end TypeDoctrine
