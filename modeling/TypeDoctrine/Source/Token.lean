import TypeDoctrine.Source.Literal
import TypeDoctrine.Text.Blank

/-!
# Tokens

The token scanner for member bodies. It drops blanks and comments, keeps literals opaque and reads the
rest as identifiers, punctuation and brackets. A text that does not read this way, or whose brackets do
not match, has no tokens (`tokens?`).

The scanner ends because every token takes at least one character (`nextToken?_length`).
-/

namespace TypeDoctrine.Source

open TypeDoctrine.Text (isWordStart isWordPart isBlank)

/-- A kind of bracket. -/
inductive Bracket where
  | round
  | square
  | curly
deriving DecidableEq, Repr

/-- A token, reduced to what identifier scanning needs. -/
inductive Token where
  | word (name : List Char)
  | opening (bracket : Bracket)
  | closing (bracket : Bracket)
  | other
deriving DecidableEq, Repr

/-! ## Blanks and comments -/

/-- A character between tokens: a blank or a direction mark. -/
def isSpacing (c : Char) : Bool :=
  isBlank c || c == '\u200E' || c == '\u200F'

/-- Splits before the end of the line; a carriage return that belongs to the line end goes with neither
part. -/
def splitLine : List Char → List Char × List Char
  | '\r' :: '\n' :: rest => ([], '\n' :: rest)
  | c :: rest =>
    if c == '\n' then ([], c :: rest)
    else
      let r := splitLine rest
      (c :: r.1, r.2)
  | [] => ([], [])

/-- Splits after the end of a block comment, from the text after its opener; the first part is the
comment's text. Comments nest. -/
def splitBlock? (depth : Nat) : List Char → Option (List Char × List Char)
  | '/' :: '*' :: rest => (splitBlock? (depth + 1) rest).map fun r => ('/' :: '*' :: r.1, r.2)
  | '*' :: '/' :: rest =>
    match depth with
    | 0 => some ([], rest)
    | depth + 1 => (splitBlock? depth rest).map fun r => ('*' :: '/' :: r.1, r.2)
  | c :: rest => (splitBlock? depth rest).map fun r => (c :: r.1, r.2)
  | [] => none

/-- Whether a line comment, from the text after `//`, is no documentation. -/
def isPlainLine : List Char → Bool
  | '/' :: '/' :: _ => true
  | '/' :: _ => false
  | '!' :: _ => false
  | _ => true

/-- Whether a block comment, from the text after its opener, is no documentation. -/
def isPlainBlock : List Char → Bool
  | '*' :: '*' :: _ => true
  | '*' :: '/' :: _ => true
  | '*' :: _ => false
  | '!' :: _ => false
  | _ => true

theorem splitLine_length (cs : List Char) : (splitLine cs).2.length ≤ cs.length := by
  fun_induction splitLine cs with
  | case1 => simp
  | case2 => simp
  | case3 c rest _ _ r ih =>
    have ih : r.2.length ≤ rest.length := ih
    simp only [List.length_cons]; omega
  | case4 => simp

theorem splitBlock?_length {depth : Nat} {cs : List Char} {r : List Char × List Char}
    (h : splitBlock? depth cs = some r) : r.2.length < cs.length := by
  fun_induction splitBlock? depth cs generalizing r with
  | case1 depth rest ih =>
    obtain ⟨q, hq, rfl⟩ := Option.map_eq_some_iff.1 h
    have := ih hq; simp only [List.length_cons]; omega
  | case2 rest => obtain rfl := Option.some.inj h; simp only [List.length_cons]; omega
  | case3 rest depth ih =>
    obtain ⟨q, hq, rfl⟩ := Option.map_eq_some_iff.1 h
    have := ih hq; simp only [List.length_cons]; omega
  | case4 depth c rest _ _ ih =>
    obtain ⟨q, hq, rfl⟩ := Option.map_eq_some_iff.1 h
    have := ih hq; simp only [List.length_cons]; omega
  | case5 => simp at h

/-- Drops blanks and comments, up to a documentation comment or a comment without end. -/
def dropSpacing (cs : List Char) : List Char :=
  match cs with
  | [] => []
  | c :: rest =>
    if isSpacing c then dropSpacing rest
    else if c == '/' && rest.head? == some '/' && isPlainLine (rest.drop 1) then
      dropSpacing (splitLine (rest.drop 1)).2
    else if c == '/' && rest.head? == some '*' && isPlainBlock (rest.drop 1) then
      match _h : splitBlock? 0 (rest.drop 1) with
      | some r => dropSpacing r.2
      | none => c :: rest
    else c :: rest
termination_by cs.length
decreasing_by
  · simp
  · have := splitLine_length (rest.drop 1)
    simp only [List.length_drop, List.length_cons] at this ⊢; omega
  · have := splitBlock?_length _h
    simp only [List.length_drop, List.length_cons] at this ⊢; omega

theorem dropSpacing_length (cs : List Char) : (dropSpacing cs).length ≤ cs.length := by
  fun_induction dropSpacing cs with
  | case1 => simp
  | case2 c rest _ ih => simp only [List.length_cons]; omega
  | case3 c rest _ _ ih =>
    have := splitLine_length (rest.drop 1)
    simp only [List.length_drop, List.length_cons] at this ⊢; omega
  | case4 c rest _ _ _ r h ih =>
    have := splitBlock?_length h
    simp only [List.length_drop, List.length_cons] at this ⊢; omega
  | case5 => simp
  | case6 => simp

/-- Whether a carriage return stands without a line feed after it. -/
def hasLoneReturn : List Char → Bool
  | '\r' :: '\n' :: rest => hasLoneReturn rest
  | '\r' :: _ => true
  | _ :: rest => hasLoneReturn rest
  | [] => false

/-- The text of a documentation comment and what follows the comment. -/
def documentation? : List Char → Option (List Char × List Char)
  | '/' :: '/' :: '!' :: rest => some (splitLine rest)
  | '/' :: '/' :: '/' :: rest => if rest.head? == some '/' then none else some (splitLine rest)
  | '/' :: '*' :: '!' :: rest => splitBlock? 0 rest
  | '/' :: '*' :: '*' :: rest => if rest.head? == some '*' then none else splitBlock? 0 rest
  | _ => none

/-! ## Words and punctuation -/

/-- Splits an identifier from what follows. -/
def splitWord? : List Char → Option (List Char × List Char)
  | [] => none
  | c :: rest =>
    if isWordStart c then some (c :: rest.takeWhile isWordPart, rest.dropWhile isWordPart) else none

/-- The names that cannot be written raw. -/
def unescapable : List (List Char) :=
  ["_".toList, "super".toList, "self".toList, "Self".toList, "crate".toList]

/-- Splits an identifier, raw or not, from what follows; a raw one is named without its mark. -/
def splitName? : List Char → Option (List Char × List Char)
  | 'r' :: '#' :: rest =>
    match splitWord? rest with
    | some r => if unescapable.contains r.1 then none else some r
    | none => none
  | cs => splitWord? cs

/-- The openers that only a literal can follow. -/
def literalOpeners : List (List Char) :=
  ["r\"".toList, "r#\"".toList, "r##".toList, "b\"".toList, "b'".toList, "br\"".toList, "br#".toList,
    "c\"".toList, "cr\"".toList, "cr#".toList]

/-- Splits an identifier token from what follows. -/
def splitNameToken? (cs : List Char) : Option (List Char × List Char) :=
  if literalOpeners.any (·.isPrefixOf cs) then none else splitName? cs

/-- The punctuation characters, the apostrophe apart. -/
def punctuation : List Char :=
  "~!@#$%^&*-=+|;:,<.>/?".toList

/-- What follows a punctuation character. An apostrophe must mark the identifier after it, which is then
read as a token of its own. -/
def afterPunctuation? : List Char → Option (List Char)
  | '\'' :: rest =>
    match splitName? rest with
    | some r =>
      if r.2.head? == some '\'' || (r.2.head? == some '#' && !(['r', '#'].isPrefixOf rest)) then none
      else some rest
    | none => none
  | c :: rest =>
    if c == '/' && (rest.head? == some '/' || rest.head? == some '*') then none
    else if punctuation.contains c then some rest
    else none
  | [] => none

/-! ## The scanner -/

/-- The one bracketed text that is a literal. -/
def errorMark : List Char :=
  "(/*ERROR*/)".toList

/-- The bracket that a character opens or closes. -/
def bracketToken? : Char → Option Token
  | '(' => some (.opening .round)
  | '[' => some (.opening .square)
  | '{' => some (.opening .curly)
  | ')' => some (.closing .round)
  | ']' => some (.closing .square)
  | '}' => some (.closing .curly)
  | _ => none

/-- Splits the first token of a text that starts with no blank and no plain comment. A documentation
comment counts as the word `doc`, unless a carriage return stands alone in it. -/
def nextToken? (cs : List Char) : Option (Token × List Char) :=
  match documentation? cs with
  | some r => if hasLoneReturn r.1 then none else some (.word "doc".toList, r.2)
  | none =>
    if errorMark.isPrefixOf cs then some (.other, cs.drop errorMark.length)
    else
      match cs.head?.bind bracketToken? with
      | some t => some (t, cs.drop 1)
      | none =>
        match afterLiteral? cs with
        | some rest => some (.other, rest)
        | none =>
          match afterPunctuation? cs with
          | some rest => some (.other, rest)
          | none => (splitNameToken? cs).map fun r => (.word r.1, r.2)

theorem documentation?_length {cs : List Char} {r : List Char × List Char}
    (h : documentation? cs = some r) : r.2.length < cs.length := by
  unfold documentation? at h
  split at h
  · next rest =>
    obtain rfl := Option.some.inj h
    have := splitLine_length rest; simp only [List.length_cons]; omega
  · next rest =>
    split at h
    · simp at h
    · obtain rfl := Option.some.inj h
      have := splitLine_length rest; simp only [List.length_cons]; omega
  · have := splitBlock?_length h; simp only [List.length_cons]; omega
  · split at h
    · simp at h
    · have := splitBlock?_length h; simp only [List.length_cons]; omega
  · simp at h

theorem splitWord?_length {cs : List Char} {r : List Char × List Char}
    (h : splitWord? cs = some r) : r.2.length < cs.length := by
  unfold splitWord? at h
  split at h
  · simp at h
  · next c rest =>
    split at h
    · obtain rfl := Option.some.inj h
      have := (List.dropWhile_suffix isWordPart (l := rest)).length_le
      simp only [List.length_cons]; omega
    · simp at h

theorem splitName?_length {cs : List Char} {r : List Char × List Char}
    (h : splitName? cs = some r) : r.2.length < cs.length := by
  unfold splitName? at h
  split at h
  · split at h
    · next hw =>
      split at h
      · simp at h
      · obtain rfl := Option.some.inj h
        have := splitWord?_length hw
        simp only [List.length_cons]; omega
    · simp at h
  · exact splitWord?_length h

theorem afterPunctuation?_length {cs rest : List Char} (h : afterPunctuation? cs = some rest) :
    rest.length < cs.length := by
  unfold afterPunctuation? at h
  split at h
  · split at h
    · split at h
      · simp at h
      · obtain rfl := Option.some.inj h; simp
    · simp at h
  · split at h
    · simp at h
    · split at h
      · obtain rfl := Option.some.inj h; simp
      · simp at h
  · simp at h

theorem nextToken?_length {cs : List Char} {t : Token} {rest : List Char}
    (h : nextToken? cs = some (t, rest)) : rest.length < cs.length := by
  unfold nextToken? at h
  split at h
  · next hd =>
    have := documentation?_length hd
    split at h
    · simp at h
    · simp only [Option.some.injEq, Prod.mk.injEq] at h
      obtain ⟨_, rfl⟩ := h
      exact this
  · split at h
    · next hp =>
      simp only [Option.some.injEq, Prod.mk.injEq] at h
      obtain ⟨_, rfl⟩ := h
      have := (List.isPrefixOf_iff_prefix.1 hp).length_le
      have : errorMark.length = 11 := by decide
      simp only [List.length_drop]; omega
    · split at h
      · next hb =>
        simp only [Option.some.injEq, Prod.mk.injEq] at h
        obtain ⟨_, rfl⟩ := h
        cases cs with
        | nil => simp at hb
        | cons c tail => simp
      · split at h
        · next hl =>
          simp only [Option.some.injEq, Prod.mk.injEq] at h
          obtain ⟨_, rfl⟩ := h
          exact afterLiteral?_length hl
        · split at h
          · next hp =>
            simp only [Option.some.injEq, Prod.mk.injEq] at h
            obtain ⟨_, rfl⟩ := h
            exact afterPunctuation?_length hp
          · obtain ⟨r, hr, he⟩ := Option.map_eq_some_iff.1 h
            simp only [Prod.mk.injEq] at he
            obtain ⟨_, rfl⟩ := he
            unfold splitNameToken? at hr
            split at hr
            · simp at hr
            · exact splitName?_length hr

/-- Reads a text to its end, token by token. -/
def scan? (cs : List Char) : Option (List Token) :=
  match _h : dropSpacing cs with
  | [] => some []
  | c :: rest =>
    match _ht : nextToken? (c :: rest) with
    | some (t, tail) => (scan? tail).map (t :: ·)
    | none => none
termination_by cs.length
decreasing_by
  have := nextToken?_length _ht
  have hd := dropSpacing_length cs
  rw [_h] at hd
  omega

/-- Whether the closing brackets match the open ones, innermost first, and none is left open. -/
def balanced : List Bracket → List Token → Bool
  | stack, [] => stack.isEmpty
  | stack, .opening b :: ts => balanced (b :: stack) ts
  | [], .closing _ :: _ => false
  | top :: stack, .closing b :: ts => top == b && balanced stack ts
  | stack, _ :: ts => balanced stack ts

/-- The tokens of a text, or nothing when it does not read as tokens with matching brackets. A byte order
mark at its start is no part of the text. -/
def tokens? (cs : List Char) : Option (List Token) :=
  let text := if cs.head? == some '\uFEFF' then cs.drop 1 else cs
  match scan? text with
  | some ts => if balanced [] ts then some ts else none
  | none => none

end TypeDoctrine.Source
