import TypeDoctrine.Text.Ascii
import TypeDoctrine.Text.Word

/-!
# Literal tokens

Recognisers for the literals of the token scanner: strings, characters and numbers. Each takes the text
from the literal's first character (or from where its doc comment says) and returns what follows the
literal, or nothing when the text starts with no literal of that kind.
-/

namespace TypeDoctrine.Source

open TypeDoctrine.Text (isWordStart isWordPart digitValue?)

/-- Drops an identifier, if the text starts with one. -/
def dropWord : List Char → List Char
  | [] => []
  | c :: rest => if isWordStart c then rest.dropWhile isWordPart else c :: rest

/-! ## Strings and characters -/

/-- What a quoted literal holds: text, bytes, or text that a zero ends. -/
inductive Content where
  | text
  | bytes
  | zeroEnded
deriving DecidableEq, Repr

/-- Characters that may stand unescaped. -/
def Content.admits : Content → Char → Bool
  | .text, _ => true
  | .bytes, c => c.toNat < 0x80
  | .zeroEnded, c => c != '\x00'

/-- Whether `\x` may be followed by these two digits. -/
def Content.admitsHex : Content → Char → Char → Bool
  | .text, a, b => '0' ≤ a && a ≤ '7' && (digitValue? b).isSome
  | .bytes, a, b => (digitValue? a).isSome && (digitValue? b).isSome
  | .zeroEnded, a, b => (digitValue? a).isSome && (digitValue? b).isSome && !(a == '0' && b == '0')

/-- Reads the digits of a code point escape up to its closing brace: one to six hexadecimal digits, with
underscores after the first, that name a Unicode scalar value. -/
def codePoint? (digits value : Nat) : List Char → Option (Nat × List Char)
  | [] => none
  | c :: rest =>
    match digitValue? c with
    | some d => if digits == 6 then none else codePoint? (digits + 1) (value * 16 + d) rest
    | none =>
      if digits == 0 then none
      else if c == '_' then codePoint? digits value rest
      else if c == '}' && value.isValidChar then some (value, rest)
      else none

/-- What follows an escape, from the character after the backslash. -/
def afterEscape? (content : Content) : List Char → Option (List Char)
  | 'x' :: a :: b :: rest => if content.admitsHex a b then some rest else none
  | 'u' :: '{' :: rest =>
    match content, codePoint? 0 0 rest with
    | .text, some (_, rest) => some rest
    | .zeroEnded, some (n, rest) => if n == 0 then none else some rest
    | _, _ => none
  | '0' :: rest => if content == .zeroEnded then none else some rest
  | c :: rest => if ['n', 'r', 't', '\\', '\'', '"'].contains c then some rest else none
  | [] => none

/-- What follows a backslash at the end of a line: the blanks and line ends from there on are skipped. A
carriage return must belong to a line end, and the text must go on. -/
def afterLineJoin? : List Char → Option (List Char)
  | '\r' :: '\n' :: rest => afterLineJoin? rest
  | [] => none
  | c :: rest =>
    if c == '\r' then none
    else if c == ' ' || c == '\t' || c == '\n' then afterLineJoin? rest
    else some (c :: rest)

theorem codePoint?_length {digits value n : Nat} {cs rest : List Char}
    (h : codePoint? digits value cs = some (n, rest)) : rest.length < cs.length := by
  fun_induction codePoint? digits value cs <;> simp_all <;> omega

theorem afterEscape?_length {content : Content} {cs rest : List Char}
    (h : afterEscape? content cs = some rest) : rest.length < cs.length := by
  unfold afterEscape? at h
  split at h
  · split at h <;> simp_all
    omega
  · split at h
    · next hc => simp_all; have := codePoint?_length hc; omega
    · next hc => split at h <;> simp_all; have := codePoint?_length hc; omega
    · simp at h
  · split at h <;> simp_all
  · split at h <;> simp_all
  · simp at h

theorem afterLineJoin?_length {cs rest : List Char} (h : afterLineJoin? cs = some rest) :
    rest.length ≤ cs.length := by
  fun_induction afterLineJoin? cs with
  | case1 rest' ih => have := ih h; simp only [List.length_cons]; omega
  | case2 => simp at h
  | case3 => simp at h
  | case4 c rest' _ _ _ ih => have := ih h; simp only [List.length_cons]; omega
  | case5 => simp_all

/-- What follows the closing quote of a string, from its first character on. -/
def afterQuoted? (content : Content) : List Char → Option (List Char)
  | [] => none
  | c :: rest =>
    if c == '"' then some rest
    else if c == '\r' then
      if rest.head? == some '\n' then afterQuoted? content (rest.drop 1) else none
    else if c == '\\' then
      if rest.head? == some '\n' || rest.head? == some '\r' then
        match _h : afterLineJoin? rest with
        | some rest' => afterQuoted? content rest'
        | none => none
      else
        match _h : afterEscape? content rest with
        | some rest' => afterQuoted? content rest'
        | none => none
    else if content.admits c then afterQuoted? content rest
    else none
termination_by cs => cs.length
decreasing_by
  · simp only [List.length_drop, List.length_cons]; omega
  · have := afterLineJoin?_length _h
    simp only [List.length_cons]; omega
  · have := afterEscape?_length _h
    simp only [List.length_cons]; omega
  · simp

/-- What follows the closing quote of a raw string, whose quote is followed by `hashes` hash signs. -/
def afterRawBody? (content : Content) (hashes : Nat) : List Char → Option (List Char)
  | [] => none
  | '\r' :: '\n' :: rest => afterRawBody? content hashes rest
  | c :: rest =>
    if c == '"' && (List.replicate hashes '#').isPrefixOf rest then some (rest.drop hashes)
    else if c == '\r' || !content.admits c then none
    else afterRawBody? content hashes rest

/-- What follows a raw string, from the character after its `r`. At most 255 hash signs may open it. -/
def afterRaw? (content : Content) (cs : List Char) : Option (List Char) :=
  let hashes := (cs.takeWhile (· == '#')).length
  match cs.dropWhile (· == '#') with
  | '"' :: body => if hashes ≤ 255 then afterRawBody? content hashes body else none
  | _ => none

/-- What follows a character literal, from the character after its opening quote. -/
def afterCharacter? (content : Content) (cs : List Char) : Option (List Char) :=
  let rest? :=
    match cs with
    | '\\' :: rest => afterEscape? content rest
    | c :: rest => if content.admits c then some rest else none
    | [] => none
  match rest? with
  | some ('\'' :: rest) => some rest
  | _ => none

/-- What follows a string or character literal, without its suffix. -/
def afterText? : List Char → Option (List Char)
  | '"' :: rest => afterQuoted? .text rest
  | 'r' :: rest => afterRaw? .text rest
  | 'b' :: '"' :: rest => afterQuoted? .bytes rest
  | 'b' :: 'r' :: rest => afterRaw? .bytes rest
  | 'c' :: '"' :: rest => afterQuoted? .zeroEnded rest
  | 'c' :: 'r' :: rest => afterRaw? .zeroEnded rest
  | 'b' :: '\'' :: rest => afterCharacter? .bytes rest
  | '\'' :: rest => afterCharacter? .text rest
  | _ => none

/-! ## Numbers -/

/-- A digit or an underscore between digits. -/
def isDigitOrLine (c : Char) : Bool :=
  c.isDigit || c == '_'

/-- What follows an exponent, from the character after its letter: at most one sign before the first
digit, underscores anywhere, at least one digit. -/
def afterExponent? (signed valued : Bool) : List Char → Option (List Char)
  | [] => if valued then some [] else none
  | c :: rest =>
    if c.isDigit then afterExponent? signed true rest
    else if c == '_' then afterExponent? signed valued rest
    else if (c == '+' || c == '-') && !valued then
      if signed then none else afterExponent? true valued rest
    else if valued then some (c :: rest)
    else none

/-- What follows a number with a point or an exponent. A point may not be followed by another point or
an identifier. A malformed exponent after a point is left over; without a point there is no number. -/
def afterFloat? : List Char → Option (List Char)
  | [] => none
  | c :: rest =>
    if !c.isDigit then none
    else
      match rest.dropWhile isDigitOrLine with
      | '.' :: rest =>
        if (rest.head?.any fun d => d == '.' || isWordStart d) then none
        else
          let tail := rest.dropWhile isDigitOrLine
          match tail with
          | 'e' :: exponent | 'E' :: exponent => some ((afterExponent? false false exponent).getD tail)
          | _ => some tail
      | 'e' :: exponent | 'E' :: exponent => afterExponent? false false exponent
      | _ => none

/-- What follows the digits of an integer in a base. A decimal digit too large for the base spoils the
number, a letter too large ends it. -/
def afterDigits? (base : Nat) (started : Bool) : List Char → Option (List Char)
  | [] => if started then some [] else none
  | c :: rest =>
    if c == '_' then
      if !started && base == 10 then none else afterDigits? base started rest
    else
      match digitValue? c with
      | some d =>
        if d < base then afterDigits? base true rest
        else if c.isDigit then none
        else if started then some (c :: rest)
        else none
      | none => if started then some (c :: rest) else none

/-- What follows an integer. -/
def afterInteger? : List Char → Option (List Char)
  | '0' :: 'x' :: rest => afterDigits? 16 false rest
  | '0' :: 'o' :: rest => afterDigits? 8 false rest
  | '0' :: 'b' :: rest => afterDigits? 2 false rest
  | cs => afterDigits? 10 false cs

/-- Takes the suffix of a number; no identifier character may follow. -/
def afterSuffix? (cs : List Char) : Option (List Char) :=
  let rest := dropWord cs
  if rest.head?.any isWordPart then none else some rest

/-- What follows a literal, its suffix included. -/
def afterLiteral? (cs : List Char) : Option (List Char) :=
  match afterText? cs with
  | some rest => some (dropWord rest)
  | none =>
    match (afterFloat? cs).bind afterSuffix? with
    | some rest => some rest
    | none => (afterInteger? cs).bind afterSuffix?

/-! ## Every literal takes something -/

theorem dropWord_length (cs : List Char) : (dropWord cs).length ≤ cs.length := by
  unfold dropWord
  split
  · simp
  · next c rest =>
    split
    · have := (List.dropWhile_suffix isWordPart (l := rest)).length_le
      simp only [List.length_cons]; omega
    · simp

theorem afterQuoted?_length {content : Content} {cs rest : List Char}
    (h : afterQuoted? content cs = some rest) : rest.length < cs.length := by
  fun_induction afterQuoted? content cs with
  | case1 => simp at h
  | case2 c tail => simp_all
  | case3 c tail _ _ _ ih =>
    have := ih h
    simp only [List.length_drop, List.length_cons] at this ⊢; omega
  | case4 => simp at h
  | case5 c tail _ _ _ _ joined hj ih =>
    have := ih h
    have := afterLineJoin?_length hj
    simp only [List.length_cons]; omega
  | case6 => simp at h
  | case7 c tail _ _ _ _ escaped he ih =>
    have := ih h
    have := afterEscape?_length he
    simp only [List.length_cons]; omega
  | case8 => simp at h
  | case9 c tail _ _ _ _ ih =>
    have := ih h
    simp only [List.length_cons]; omega
  | case10 => simp at h

theorem afterRawBody?_length {content : Content} {hashes : Nat} {cs rest : List Char}
    (h : afterRawBody? content hashes cs = some rest) : rest.length < cs.length := by
  fun_induction afterRawBody? content hashes cs with
  | case1 => simp at h
  | case2 tail ih => have := ih h; simp only [List.length_cons]; omega
  | case3 c tail _ _ =>
    obtain rfl := Option.some.inj h
    simp only [List.length_drop, List.length_cons]; omega
  | case4 => simp at h
  | case5 c tail _ _ _ ih => have := ih h; simp only [List.length_cons]; omega

theorem afterRaw?_length {content : Content} {cs rest : List Char}
    (h : afterRaw? content cs = some rest) : rest.length < cs.length := by
  unfold afterRaw? at h
  have hd := (List.dropWhile_suffix (· == '#') (l := cs)).length_le
  split at h
  · next body hb =>
    simp only at h
    split at h
    · have := afterRawBody?_length h
      rw [hb] at hd
      simp only [List.length_cons] at hd; omega
    · simp at h
  · simp at h

theorem afterCharacter?_length {content : Content} {cs rest : List Char}
    (h : afterCharacter? content cs = some rest) : rest.length < cs.length := by
  unfold afterCharacter? at h
  simp only at h
  split at h
  · next hr =>
    obtain rfl := Option.some.inj h
    split at hr
    · have := afterEscape?_length hr
      simp only [List.length_cons] at this ⊢; omega
    · split at hr
      · obtain rfl := Option.some.inj hr
        simp only [List.length_cons]; omega
      · simp at hr
    · simp at hr
  · simp at h

theorem afterText?_length {cs rest : List Char} (h : afterText? cs = some rest) :
    rest.length < cs.length := by
  unfold afterText? at h
  split at h
  · have := afterQuoted?_length h; simp only [List.length_cons]; omega
  · have := afterRaw?_length h; simp only [List.length_cons]; omega
  · have := afterQuoted?_length h; simp only [List.length_cons]; omega
  · have := afterRaw?_length h; simp only [List.length_cons]; omega
  · have := afterQuoted?_length h; simp only [List.length_cons]; omega
  · have := afterRaw?_length h; simp only [List.length_cons]; omega
  · have := afterCharacter?_length h; simp only [List.length_cons]; omega
  · have := afterCharacter?_length h; simp only [List.length_cons]; omega
  · simp at h

theorem afterExponent?_length {signed valued : Bool} {cs rest : List Char}
    (h : afterExponent? signed valued cs = some rest) : rest.length ≤ cs.length := by
  fun_induction afterExponent? signed valued cs with
  | case1 => simp_all
  | case2 => simp at h
  | case3 _ _ c tail _ ih | case4 _ _ c tail _ _ ih | case6 _ _ c tail _ _ _ _ ih =>
    have := ih h; simp only [List.length_cons]; omega
  | case5 => simp at h
  | case7 => simp_all
  | case8 => simp at h

/-- A number ends at its exponent's end, or before its letter when the exponent is malformed. -/
theorem exponent_le {letter : Char} {tail exponent rest : List Char}
    (h : some ((afterExponent? false false exponent).getD tail) = some rest)
    (ht : tail = letter :: exponent) : rest.length ≤ tail.length := by
  obtain rfl := Option.some.inj h
  cases hx : afterExponent? false false exponent with
  | none => simp
  | some r =>
    have := afterExponent?_length hx
    subst ht
    simp only [Option.getD_some, List.length_cons]; omega

theorem afterFloat?_length {cs rest : List Char} (h : afterFloat? cs = some rest) :
    rest.length < cs.length := by
  unfold afterFloat? at h
  split at h
  · simp at h
  · next c tail =>
    have hd := (List.dropWhile_suffix isDigitOrLine (l := tail)).length_le
    split at h
    · simp at h
    · split at h
      · next fraction hf =>
        rw [hf] at hd
        have hd2 := (List.dropWhile_suffix isDigitOrLine (l := fraction)).length_le
        split at h
        · simp at h
        · simp only [List.length_cons] at hd h ⊢
          split at h
          · next exponent he => exact Nat.lt_of_le_of_lt (exponent_le h he) (by omega)
          · next exponent he => exact Nat.lt_of_le_of_lt (exponent_le h he) (by omega)
          · obtain rfl := Option.some.inj h
            omega
      · next exponent he =>
        rw [he] at hd
        have := afterExponent?_length h
        simp only [List.length_cons] at hd ⊢; omega
      · next exponent he =>
        rw [he] at hd
        have := afterExponent?_length h
        simp only [List.length_cons] at hd ⊢; omega
      · simp at h

theorem afterDigits?_length {base : Nat} {started : Bool} {cs rest : List Char}
    (h : afterDigits? base started cs = some rest) :
    if started then rest.length ≤ cs.length else rest.length < cs.length := by
  fun_induction afterDigits? base started cs with
  | case1 => simp_all
  | case2 => simp at h
  | case3 => simp at h
  | case4 started c tail _ _ ih =>
    have := ih h
    cases started <;> simp_all <;> omega
  | case5 started c tail _ d _ _ ih =>
    have := ih h
    simp only [List.length_cons, if_true] at this ⊢
    split <;> omega
  | case6 => simp at h
  | case7 => simp_all
  | case8 => simp at h
  | case9 => simp_all
  | case10 => simp at h

theorem afterInteger?_length {cs rest : List Char} (h : afterInteger? cs = some rest) :
    rest.length < cs.length := by
  unfold afterInteger? at h
  split at h
  all_goals
    have := afterDigits?_length h
    simp only [Bool.false_eq_true, if_false, List.length_cons] at this ⊢
    omega

theorem afterSuffix?_length {cs rest : List Char} (h : afterSuffix? cs = some rest) :
    rest.length ≤ cs.length := by
  unfold afterSuffix? at h
  have := dropWord_length cs
  simp only at h
  split at h
  · simp at h
  · obtain rfl := Option.some.inj h
    omega

theorem afterLiteral?_length {cs rest : List Char} (h : afterLiteral? cs = some rest) :
    rest.length < cs.length := by
  unfold afterLiteral? at h
  split at h
  · next tail ht =>
    obtain rfl := Option.some.inj h
    have := afterText?_length ht
    have := dropWord_length tail
    omega
  · split at h
    · next tail hf =>
      obtain rfl := Option.some.inj h
      obtain ⟨number, hn, hs⟩ := Option.bind_eq_some_iff.1 hf
      have := afterFloat?_length hn
      have := afterSuffix?_length hs
      omega
    · obtain ⟨number, hn, hs⟩ := Option.bind_eq_some_iff.1 h
      have := afterInteger?_length hn
      have := afterSuffix?_length hs
      omega

end TypeDoctrine.Source
