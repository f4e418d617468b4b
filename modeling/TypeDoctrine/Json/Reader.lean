import TypeDoctrine.Json.Value
import TypeDoctrine.Number.Binary64
import TypeDoctrine.Text.Ascii

/-!
# Reading JSON

Strict JSON: no comments, no trailing commas, no byte order mark, no control characters in strings. The
text is cut into tokens (`tokens?`), and the tokens are folded into a value with a stack of the arrays
and objects that are still open (`build?`).
-/

namespace TypeDoctrine.Json

open TypeDoctrine.Text (digitValue? ofDigits wordLimit)

/-- A token: a bracket, a separator, or a value without parts. -/
inductive Token where
  | openArray
  | closeArray
  | openObject
  | closeObject
  | comma
  | colon
  | atom (value : Json)
deriving Repr

/-! ## Strings -/

/-- The character that a single-letter escape stands for. -/
def unescape? : Char → Option Char
  | '"' => some '"'
  | '\\' => some '\\'
  | '/' => some '/'
  | 'b' => some '\x08'
  | 'f' => some '\x0C'
  | 'n' => some '\n'
  | 'r' => some '\r'
  | 't' => some '\t'
  | _ => none

/-- The value of four hexadecimal digits. -/
def hex4? (a b c d : Char) : Option Nat :=
  match digitValue? a, digitValue? b, digitValue? c, digitValue? d with
  | some a, some b, some c, some d => some (((a * 16 + b) * 16 + c) * 16 + d)
  | _, _, _, _ => none

/-- Splits a string after its closing quote. The first part holds its code units: code points, and
halves of surrogate pairs where they are written as escapes. -/
def splitString? : List Char → Option (List Nat × List Char)
  | [] => none
  | '"' :: rest => some ([], rest)
  | '\\' :: 'u' :: a :: b :: c :: d :: rest =>
    match hex4? a b c d, splitString? rest with
    | some n, some r => some (n :: r.1, r.2)
    | _, _ => none
  | '\\' :: c :: rest =>
    match unescape? c, splitString? rest with
    | some d, some r => some (d.toNat :: r.1, r.2)
    | _, _ => none
  | c :: rest =>
    if c.toNat < 0x20 || c == '\\' then none
    else (splitString? rest).map fun r => (c.toNat :: r.1, r.2)

/-- The first half of a surrogate pair. -/
def isHighHalf (n : Nat) : Bool :=
  0xD800 ≤ n && n ≤ 0xDBFF

/-- The second half of a surrogate pair. -/
def isLowHalf (n : Nat) : Bool :=
  0xDC00 ≤ n && n ≤ 0xDFFF

/-- The text of code units; half a surrogate pair stands for none. -/
def ofUnits? : List Nat → Option (List Char)
  | [] => some []
  | [n] => if isHighHalf n || isLowHalf n then none else some [Char.ofNat n]
  | n :: m :: rest =>
    if isHighHalf n then
      if isLowHalf m then
        (ofUnits? rest).map (Char.ofNat (0x10000 + (n - 0xD800) * 0x400 + (m - 0xDC00)) :: ·)
      else none
    else if isLowHalf n then none
    else (ofUnits? (m :: rest)).map (Char.ofNat n :: ·)

/-- The value of a string literal. -/
def ofStringUnits (units : List Nat) : Json :=
  match ofUnits? units with
  | some cs => .string (String.ofList cs)
  | none => .illegible

/-! ## Numbers -/

/-- Splits one or more decimal digits from what follows. -/
def splitDigits? (cs : List Char) : Option (List Char × List Char) :=
  let ds := cs.takeWhile Char.isDigit
  if ds.isEmpty then none else some (ds, cs.dropWhile Char.isDigit)

/-- Splits the digits before the point: a zero, or digits that start with no zero. -/
def splitWhole? : List Char → Option (List Char × List Char)
  | '0' :: rest => some (['0'], rest)
  | cs => splitDigits? cs

/-- Splits the digits after the point, none without a point. -/
def splitFraction? : List Char → Option (List Char × List Char)
  | '.' :: rest => splitDigits? rest
  | cs => some ([], cs)

/-- Splits the exponent, if there is one. -/
def splitExponent? : List Char → Option (Option Int × List Char)
  | [] => some (none, [])
  | c :: rest =>
    if c == 'e' || c == 'E' then
      let (negative, ds) :=
        match rest with
        | '+' :: rest => (false, rest)
        | '-' :: rest => (true, rest)
        | _ => (false, rest)
      (splitDigits? ds).map fun r =>
        let n : Int := ofDigits 10 r.1
        (some (if negative then -n else n), r.2)
    else some (none, c :: rest)

/-- Writes digits behind a number for as long as it stays below `wordLimit`, and counts the digits that are
left over. -/
def absorb (n : Nat) : List Char → Nat × Nat
  | [] => (n, 0)
  | c :: rest =>
    let m := n * 10 + ofDigits 10 [c]
    if m < wordLimit then absorb m rest else (n, rest.length + 1)

/-- Whether a number can be read. A reader keeps the leading digits that fit 64 bits, of the fraction too if
there is room again, and multiplies them by the power of ten that is left. Both are 64-bit floats, and their
product must not be infinite; a division by a power of ten never is. -/
def isReadable (whole fraction : List Char) (exponent : Int) : Bool :=
  let (n, left) := absorb 0 whole
  let (m, dropped) := absorb n fraction
  match exponent + left + dropped - fraction.length with
  | .ofNat e => m == 0 || ((Binary64.ofDecimal false m 0).mul (Binary64.ofDecimal false 1 e)).isFinite
  | .negSucc _ => true

/-- The number with these parts. -/
def ofNumberParts (negative : Bool) (whole fraction : List Char) (exponent : Option Int) : Json :=
  let magnitude := ofDigits 10 (whole ++ fraction)
  let value : Int := if negative then -magnitude else magnitude
  if fraction.isEmpty && exponent.isNone && magnitude < wordLimit && !(negative && magnitude == 0) then
    .integer value
  else if isReadable whole fraction (exponent.getD 0) then .real value (exponent.getD 0 - fraction.length)
  else .outOfRange

/-- Splits a number from what follows, from the text after its sign. -/
def splitUnsigned? (negative : Bool) (cs : List Char) : Option (Json × List Char) :=
  match splitWhole? cs with
  | none => none
  | some (whole, rest) =>
    match splitFraction? rest with
    | none => none
    | some (fraction, rest) =>
      (splitExponent? rest).map fun r => (ofNumberParts negative whole fraction r.1, r.2)

/-- Splits a number from what follows. -/
def splitNumber? : List Char → Option (Json × List Char)
  | '-' :: rest => splitUnsigned? true rest
  | cs => splitUnsigned? false cs

/-! ## Tokens -/

/-- A blank between tokens. -/
def isJsonBlank (c : Char) : Bool :=
  c == ' ' || c == '\n' || c == '\t' || c == '\r'

/-- Splits the first token from what follows. -/
def splitToken? : List Char → Option (Token × List Char)
  | '[' :: rest => some (.openArray, rest)
  | ']' :: rest => some (.closeArray, rest)
  | '{' :: rest => some (.openObject, rest)
  | '}' :: rest => some (.closeObject, rest)
  | ',' :: rest => some (.comma, rest)
  | ':' :: rest => some (.colon, rest)
  | '"' :: rest => (splitString? rest).map fun r => (.atom (ofStringUnits r.1), r.2)
  | 't' :: 'r' :: 'u' :: 'e' :: rest => some (.atom (.bool true), rest)
  | 'f' :: 'a' :: 'l' :: 's' :: 'e' :: rest => some (.atom (.bool false), rest)
  | 'n' :: 'u' :: 'l' :: 'l' :: rest => some (.atom .null, rest)
  | cs => (splitNumber? cs).map fun r => (.atom r.1, r.2)

theorem splitString?_length {cs : List Char} {r : List Nat × List Char} (h : splitString? cs = some r) :
    r.2.length < cs.length := by
  fun_induction splitString? cs generalizing r with
  | case1 => simp at h
  | case2 rest => obtain rfl := Option.some.inj h; simp
  | case3 a b c d rest q n hq _ ih =>
    obtain rfl := Option.some.inj h
    have := ih hq; simp only [List.length_cons]; omega
  | case4 => simp at h
  | case5 c rest _ q d hq _ ih =>
    obtain rfl := Option.some.inj h
    have := ih hq; simp only [List.length_cons]; omega
  | case6 => simp at h
  | case7 => simp at h
  | case8 c rest _ _ _ _ ih =>
    obtain ⟨q, hq, rfl⟩ := Option.map_eq_some_iff.1 h
    have := ih hq; simp only [List.length_cons]; omega

theorem splitDigits?_length {cs : List Char} {r : List Char × List Char} (h : splitDigits? cs = some r) :
    r.2.length < cs.length := by
  unfold splitDigits? at h
  simp only at h
  split at h
  · simp at h
  · next hne =>
    obtain rfl := Option.some.inj h
    have hl := congrArg List.length (List.takeWhile_append_dropWhile (p := Char.isDigit) (l := cs))
    rw [List.length_append] at hl
    have : (cs.takeWhile Char.isDigit).length ≠ 0 := by
      simpa [List.isEmpty_iff] using hne
    simp only
    omega

theorem splitWhole?_length {cs : List Char} {r : List Char × List Char} (h : splitWhole? cs = some r) :
    r.2.length < cs.length := by
  unfold splitWhole? at h
  split at h
  · obtain rfl := Option.some.inj h; simp
  · exact splitDigits?_length h

theorem splitFraction?_length {cs : List Char} {r : List Char × List Char}
    (h : splitFraction? cs = some r) : r.2.length ≤ cs.length := by
  unfold splitFraction? at h
  split at h
  · have := splitDigits?_length h; simp only [List.length_cons]; omega
  · obtain rfl := Option.some.inj h; simp

theorem splitExponent?_length {cs : List Char} {r : Option Int × List Char}
    (h : splitExponent? cs = some r) : r.2.length ≤ cs.length := by
  unfold splitExponent? at h
  split at h
  · obtain rfl := Option.some.inj h; simp
  · next c rest =>
    split at h
    · obtain ⟨q, hq, rfl⟩ := Option.map_eq_some_iff.1 h
      have := splitDigits?_length hq
      simp only [List.length_cons]
      split at this <;> simp only [List.length_cons] at * <;> omega
    · obtain rfl := Option.some.inj h; simp

theorem splitUnsigned?_length {negative : Bool} {cs : List Char} {r : Json × List Char}
    (h : splitUnsigned? negative cs = some r) : r.2.length < cs.length := by
  unfold splitUnsigned? at h
  split at h
  · simp at h
  · next whole rest hw =>
    split at h
    · simp at h
    · next fraction rest' hf =>
      obtain ⟨q, hq, rfl⟩ := Option.map_eq_some_iff.1 h
      have := splitWhole?_length hw
      have := splitFraction?_length hf
      have := splitExponent?_length hq
      simp only at *
      omega

theorem splitNumber?_length {cs : List Char} {r : Json × List Char} (h : splitNumber? cs = some r) :
    r.2.length < cs.length := by
  unfold splitNumber? at h
  split at h
  · have := splitUnsigned?_length h; simp only [List.length_cons]; omega
  · exact splitUnsigned?_length h

/-- Every token takes at least one character. -/
theorem splitToken?_length {cs : List Char} {r : Token × List Char} (h : splitToken? cs = some r) :
    r.2.length < cs.length := by
  unfold splitToken? at h
  split at h
  case h_7 =>
    obtain ⟨q, hq, rfl⟩ := Option.map_eq_some_iff.1 h
    have := splitString?_length hq
    simp only [List.length_cons]; omega
  case h_11 =>
    obtain ⟨q, hq, rfl⟩ := Option.map_eq_some_iff.1 h
    exact splitNumber?_length hq
  all_goals
    obtain rfl := Option.some.inj h
    simp only [List.length_cons]
    omega

/-- Cuts a text into tokens and drops the blanks between them. -/
def tokens? : List Char → Option (List Token)
  | [] => some []
  | c :: rest =>
    if isJsonBlank c then tokens? rest
    else
      match _h : splitToken? (c :: rest) with
      | some r => (tokens? r.2).map (r.1 :: ·)
      | none => none
termination_by cs => cs.length
decreasing_by
  · simp
  · exact splitToken?_length _h

/-! ## Values -/

/-- An array or object that is still open: what it holds so far, the latest first. An object also has the
name of the member that is being read; without one its names are illegible. -/
inductive Frame where
  | array (items : List Json)
  | object (members : List (Option String × Json)) (name : Option String)
deriving Repr

/-- What may come next. -/
inductive Expect where
  /-- A value. -/
  | value
  /-- A value, or the end of the array that was just opened. -/
  | firstItem
  /-- A member's name. -/
  | name
  /-- A member's name, or the end of the object that was just opened. -/
  | firstName
  /-- The colon after this member's name. -/
  | colon (name : Option String)
  /-- A comma or the end of the innermost array or object, once this value is added to it. -/
  | next (value : Json)
deriving Repr

/-- The value of an object with these members; a name that stands for no text makes it illegible. -/
def ofMembers (members : List (Option String × Json)) : Json :=
  match members.mapM fun m => m.1.map (·, m.2) with
  | some members => .object members
  | none => .illegible

/-- The name that a string literal gives a member. -/
def memberName? : Json → Option (Option String)
  | .string s => some (some s)
  | .illegible => some none
  | _ => none

/-- Folds tokens into a value. An object's members stand on the stack under the object's own frame while
the innermost value is read. -/
def build? : List Frame → Expect → List Token → Option Json
  | [], .next value, [] => some value
  | _, _, [] => none
  | stack, expect, t :: ts =>
    match expect, t, stack with
    | .value, .atom j, _ => build? stack (.next j) ts
    | .value, .openArray, _ => build? (.array [] :: stack) .firstItem ts
    | .value, .openObject, _ => build? (.object [] none :: stack) .firstName ts
    | .firstItem, .atom j, _ => build? stack (.next j) ts
    | .firstItem, .openArray, _ => build? (.array [] :: stack) .firstItem ts
    | .firstItem, .openObject, _ => build? (.object [] none :: stack) .firstName ts
    | .firstItem, .closeArray, .array items :: stack => build? stack (.next (.array items.reverse)) ts
    | .name, .atom j, _ =>
      match memberName? j with
      | some name => build? stack (.colon name) ts
      | none => none
    | .firstName, .atom j, _ =>
      match memberName? j with
      | some name => build? stack (.colon name) ts
      | none => none
    | .firstName, .closeObject, .object members _ :: stack =>
      build? stack (.next (ofMembers members.reverse)) ts
    | .colon name, .colon, .object members _ :: stack => build? (.object members name :: stack) .value ts
    | .next j, .comma, .array items :: stack => build? (.array (j :: items) :: stack) .value ts
    | .next j, .closeArray, .array items :: stack =>
      build? stack (.next (.array (j :: items).reverse)) ts
    | .next j, .comma, .object members name :: stack =>
      build? (.object ((name, j) :: members) none :: stack) .name ts
    | .next j, .closeObject, .object members name :: stack =>
      build? stack (.next (ofMembers ((name, j) :: members).reverse)) ts
    | _, _, _ => none

/-- Reads a JSON text. -/
def parse? (text : String) : Option Json :=
  (tokens? text.toList).bind (build? [] .value)

end TypeDoctrine.Json
