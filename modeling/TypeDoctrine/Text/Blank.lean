/-!
# Blank characters

The characters with the Unicode property `White_Space`, and trimming a text of them.
-/

namespace TypeDoctrine.Text

/-- A character with the property `White_Space`. -/
def isBlank (c : Char) : Bool :=
  let n := c.toNat
  (0x09 ≤ n && n ≤ 0x0D) || n == 0x20 || n == 0x85 || n == 0xA0 || n == 0x1680 ||
    (0x2000 ≤ n && n ≤ 0x200A) || n == 0x2028 || n == 0x2029 || n == 0x202F || n == 0x205F || n == 0x3000

/-- Drops the characters at the end of a text that satisfy `p`. -/
def dropEndWhile (p : Char → Bool) (cs : List Char) : List Char :=
  (cs.reverse.dropWhile p).reverse

/-- Drops the blanks at the end. -/
def trimEnd (cs : List Char) : List Char :=
  dropEndWhile isBlank cs

/-- Drops the blanks on both sides. -/
def trim (cs : List Char) : List Char :=
  trimEnd (cs.dropWhile isBlank)

end TypeDoctrine.Text
