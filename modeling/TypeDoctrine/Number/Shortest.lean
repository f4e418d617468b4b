import TypeDoctrine.Number.Binary64
import TypeDoctrine.Text.Blank
import TypeDoctrine.Text.Decimal

/-!
# The shortest decimal of a binary64 number

Of the decimals that round to a value, the ones with the fewest digits, and of these the nearest. Values
from `10 ^ (-4)` up to `10 ^ 16` are written positionally, with at least one digit after the point; the
others as digits and an exponent.
-/

namespace TypeDoctrine.Binary64

open TypeDoctrine.Text (digits signedDecimal dropEndWhile)

/-- Compares `a * 10 ^ i` with `b * 2 ^ j`. -/
def compareScaled (a : Nat) (i : Int) (b : Nat) (j : Int) : Ordering :=
  compare (a * Nat.pow 10 i.toNat * Nat.pow 2 (-j).toNat) (b * Nat.pow 2 j.toNat * Nat.pow 10 (-i).toNat)

/-- Whether `a * 10 ^ i` rounds to `m * 2 ^ q`. The values that do lie between the halves of the gaps to
the neighbours; the gap below a power of two is half as wide. The ends belong to even significands. -/
def roundsTo (m : Nat) (q : Int) (a : Nat) (i : Int) : Bool :=
  let narrow := m == significandLimit / 2 && q > minExponent
  let low := if narrow then 4 * m - 1 else 4 * m - 2
  let fromLow := compareScaled a i low (q - 2)
  let fromHigh := compareScaled a i (4 * m + 2) (q - 2)
  let ends := m % 2 == 0
  (fromLow == .gt || (ends && fromLow == .eq)) && (fromHigh == .lt || (ends && fromHigh == .eq))

/-- The least number of integer digits that holds `m * 2 ^ q`, zero or negative for fractions: the first
`k` from a start on with `m * 2 ^ q < 10 ^ k`. -/
def scaleFrom (m : Nat) (q : Int) : Nat → Int → Int
  | 0, k => k
  | steps + 1, k => if compareScaled 1 k m q == .gt then k else scaleFrom m q steps (k + 1)

/-- The least `k` with `m * 2 ^ q < 10 ^ k`, for positive `m`. Ten bits make about three digits, and over
the range of exponents this estimate is never as much as fifteen digits too high. -/
def scale (m : Nat) (q : Int) : Int :=
  scaleFrom m q 60 ((((m.log2 : Int) + q) * 3).fdiv 10 - 15)

/-- `m * 2 ^ q / 10 ^ i`, rounded down. -/
def floorAt (m : Nat) (q i : Int) : Nat :=
  (m * Nat.pow 2 q.toNat * Nat.pow 10 (-i).toNat) / (Nat.pow 2 (-q).toNat * Nat.pow 10 i.toNat)

/-- The multiple of `10 ^ i` that rounds to `m * 2 ^ q`, if there is one: of the two neighbours the nearer,
and of two equally near the upper. -/
def onGrid? (m : Nat) (q i : Int) : Option Nat :=
  let low := floorAt m q i
  let lowFits := roundsTo m q low i
  let highFits := roundsTo m q (low + 1) i
  let nearLow := compareScaled (2 * low + 1) i (2 * m) q == .gt
  if lowFits && highFits then some (if nearLow then low else low + 1)
  else if lowFits then some low
  else if highFits then some (low + 1)
  else none

/-- Tries grids of more and more digits. -/
def shortestFrom (m : Nat) (q : Int) : Nat → Int → Nat × Int
  | 0, i => (floorAt m q i, i)
  | steps + 1, i =>
    match onGrid? m q i with
    | some a => (a, i)
    | none => shortestFrom m q steps (i - 1)

/-- The digits of the shortest decimal of `m * 2 ^ q` and the position of its point: the value is
`0.digits * 10 ^ point`. -/
def shortest (m : Nat) (q : Int) : List Char × Int :=
  let (a, i) := shortestFrom m q 17 (scale m q - 1)
  let ds := digits a
  (dropEndWhile (· == '0') ds, i + ds.length)

/-- Digits with the point inside, before or after them. -/
def positional (ds : List Char) (point : Int) : List Char :=
  if point ≤ 0 then '0' :: '.' :: List.replicate (-point).toNat '0' ++ ds
  else
    let n := point.toNat
    let fraction := ds.drop n
    ds.take n ++ List.replicate (n - ds.length) '0' ++ '.' :: if fraction.isEmpty then ['0'] else fraction

/-- Digits with an exponent. -/
def exponential (ds : List Char) (point : Int) : List Char :=
  let fraction := ds.drop 1
  ds.take 1 ++ (if fraction.isEmpty then [] else '.' :: fraction) ++ 'e' :: (signedDecimal (point - 1)).toList

/-- The text of a positive value. -/
def positiveText (m : Nat) (q : Int) : List Char :=
  let (ds, point) := shortest m q
  if -3 ≤ point && point ≤ 16 then positional ds point else exponential ds point

/-- The text of a value. -/
def text : Binary64 → String
  | .nan => "NaN"
  | .infinite negative => (if negative then "-" else "") ++ "inf"
  | .finite negative m q =>
    (if negative then "-" else "") ++ String.ofList (if m == 0 then ['0', '.', '0'] else positiveText m q)

end TypeDoctrine.Binary64
