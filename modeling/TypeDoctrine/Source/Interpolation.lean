/-!
# Interpolated strings

An interpolated string (`$"..."`, `$@"..."` or `@$"..."`) is text with holes, and the holes are code.
`expand` replaces each interpolated string of a source text by its holes, every hole in round
brackets, so that only code is left of it; comments, plain strings and character literals are copied
through, so a dollar sign inside them opens nothing.

The scanning functions return what they took and what is left. Each loop ends because what is left is
shorter (`splitLiteral_length`, `splitHole_length`, `splitHoles_length`).
-/

namespace TypeDoctrine.Source

/-! ## Literals -/

/-- Splits after the closing quote of a literal whose body starts here. A backslash guards the next
character, except in a verbatim literal, where a doubled quote stands for one. Without a closing quote
the literal takes everything. -/
def splitLiteral (quote : Char) (verbatim : Bool) : List Char → List Char × List Char
  | [] => ([], [])
  | [c] => ([c], [])
  | c :: d :: rest =>
    if (c == '\\' && !verbatim) || (c == quote && verbatim && d == quote) then
      let r := splitLiteral quote verbatim rest
      (c :: d :: r.1, r.2)
    else if c == quote then ([c], d :: rest)
    else
      let r := splitLiteral quote verbatim (d :: rest)
      (c :: r.1, r.2)

theorem splitLiteral_append (quote : Char) (verbatim : Bool) (cs : List Char) :
    (splitLiteral quote verbatim cs).1 ++ (splitLiteral quote verbatim cs).2 = cs := by
  fun_induction splitLiteral quote verbatim cs <;> simp_all +zetaDelta

theorem splitLiteral_length (quote : Char) (verbatim : Bool) (cs : List Char) :
    (splitLiteral quote verbatim cs).2.length ≤ cs.length := by
  have h := congrArg List.length (splitLiteral_append quote verbatim cs)
  simp only [List.length_append] at h
  omega

/-! ## Comments -/

/-- Splits after the first `*/`; without one, the comment takes everything. -/
def splitComment : List Char → List Char × List Char
  | '*' :: '/' :: rest => (['*', '/'], rest)
  | c :: rest =>
    let r := splitComment rest
    (c :: r.1, r.2)
  | [] => ([], [])

theorem splitComment_append (cs : List Char) : (splitComment cs).1 ++ (splitComment cs).2 = cs := by
  fun_induction splitComment cs <;> simp_all +zetaDelta

theorem splitComment_length (cs : List Char) : (splitComment cs).2.length ≤ cs.length := by
  have h := congrArg List.length (splitComment_append cs)
  simp only [List.length_append] at h
  omega

/-! ## Holes -/

/-- The bracket depth after a character; a stray closing bracket leaves depth zero. -/
def depthAfter (depth : Nat) (c : Char) : Nat :=
  if c == '(' || c == '[' || c == '{' then depth + 1
  else if c == ')' || c == ']' || c == '}' then depth - 1
  else depth

/-- Splits a hole from what follows its closing brace. The first part is the hole's expression, without
its format: a colon outside brackets starts the format. `afterAt` tells that the character before was
an at sign, which makes a following string verbatim. -/
def splitHole (depth : Nat) (afterAt inFormat : Bool) : List Char → List Char × List Char
  | [] => ([], [])
  | c :: rest =>
    if c == '"' || c == '\'' then
      let lit := splitLiteral c (c == '"' && afterAt) rest
      let r := splitHole depth false inFormat lit.2
      (if inFormat then r.1 else c :: lit.1 ++ r.1, r.2)
    else if c == '}' && depth == 0 then ([], rest)
    else if c == ':' && depth == 0 && !inFormat then splitHole 0 false true rest
    else
      let r := splitHole (depthAfter depth c) (c == '@') inFormat rest
      (if inFormat then r.1 else c :: r.1, r.2)
termination_by cs => cs.length
decreasing_by
  · have := splitLiteral_length c (c == '"' && afterAt) rest
    simp only [List.length_cons]; omega
  all_goals simp

theorem splitHole_length (depth : Nat) (afterAt inFormat : Bool) (cs : List Char) :
    (splitHole depth afterAt inFormat cs).1.length + (splitHole depth afterAt inFormat cs).2.length ≤ cs.length := by
  fun_induction splitHole depth afterAt inFormat cs with
  | case1 => simp
  | case2 depth afterAt inFormat c rest hc lit r ih =>
    have h : lit.1.length + lit.2.length = rest.length := by
      rw [← List.length_append, splitLiteral_append]
    have ih : r.1.length + r.2.length ≤ lit.2.length := ih
    split <;> simp only [List.length_cons, List.length_append] <;> omega
  | case3 => simp
  | case4 depth afterAt inFormat c rest h1 h2 h3 ih => simp only [List.length_cons]; omega
  | case5 depth afterAt inFormat c rest h1 h2 h3 r ih =>
    have ih : r.1.length + r.2.length ≤ rest.length := ih
    split <;> simp only [List.length_cons] <;> omega

/-- Splits the body of an interpolated string after its closing quote and gives the expressions of its
holes. Doubled braces are text; a backslash guards the next character unless the string is verbatim,
where a doubled quote is text. -/
def splitHoles (verbatim : Bool) : List Char → List (List Char) × List Char
  | [] => ([], [])
  | c :: rest =>
    if c == '\\' && !verbatim then splitHoles verbatim (rest.drop 1)
    else if c == '"' && verbatim && rest.head? == some '"' then splitHoles verbatim (rest.drop 1)
    else if c == '"' then ([], rest)
    else if (c == '{' || c == '}') && rest.head? == some c then splitHoles verbatim (rest.drop 1)
    else if c == '{' then
      let hole := splitHole 0 false false rest
      let r := splitHoles verbatim hole.2
      (hole.1 :: r.1, r.2)
    else splitHoles verbatim rest
termination_by cs => cs.length
decreasing_by
  · simp only [List.length_drop, List.length_cons]; omega
  · simp only [List.length_drop, List.length_cons]; omega
  · simp only [List.length_drop, List.length_cons]; omega
  · have := splitHole_length 0 false false rest
    simp only [List.length_cons]; omega
  · simp

/-- Each hole, and what follows the string, is no longer than the body. -/
theorem splitHoles_length (verbatim : Bool) (cs : List Char) :
    (splitHoles verbatim cs).2.length ≤ cs.length ∧ ∀ h ∈ (splitHoles verbatim cs).1, h.length ≤ cs.length := by
  fun_induction splitHoles verbatim cs with
  | case1 => simp
  | case2 c rest _ ih | case3 c rest _ _ ih | case5 c rest _ _ _ _ ih =>
    have hd : (rest.drop 1).length ≤ (c :: rest).length := by
      simp only [List.length_drop, List.length_cons]; omega
    exact ⟨Nat.le_trans ih.1 hd, fun h hh => Nat.le_trans (ih.2 h hh) hd⟩
  | case4 => simp
  | case6 c rest _ _ _ _ _ hole r ih =>
    have hl : hole.1.length + hole.2.length ≤ rest.length := splitHole_length 0 false false rest
    have hr : r.2.length ≤ hole.2.length := ih.1
    simp only [List.length_cons, List.mem_cons]
    refine ⟨by omega, ?_⟩
    rintro h (rfl | hh)
    · omega
    · have := ih.2 h hh; omega
  | case7 c rest _ _ _ _ _ ih =>
    simp only [List.length_cons]
    exact ⟨by have := ih.1; omega, fun h hh => by have := ih.2 h hh; omega⟩

/-! ## Expansion -/

/-- Recognises the opener of an interpolated string: whether it is verbatim, and the text from the
string's body on. -/
def interpolationBody? : List Char → Option (Bool × List Char)
  | '$' :: '"' :: body => some (false, body)
  | '$' :: '@' :: '"' :: body => some (true, body)
  | '@' :: '$' :: '"' :: body => some (true, body)
  | _ => none

theorem interpolationBody?_length {cs : List Char} {verbatim : Bool} {body : List Char}
    (h : interpolationBody? cs = some (verbatim, body)) : body.length < cs.length := by
  unfold interpolationBody? at h
  split at h <;> simp_all <;> obtain ⟨_, rfl⟩ := h <;> omega

mutual

/-- Replaces every interpolated string by its holes. A text without a dollar sign has none. -/
def expand (cs : List Char) : List Char :=
  if cs.contains '$' then expandFrom false cs else cs
termination_by (cs.length, 1)

/-- The loop behind `expand`: copies comments and literals, and replaces each interpolated string by its
holes, themselves expanded. `afterAt` tells that the character before was an at sign. -/
def expandFrom (afterAt : Bool) : List Char → List Char
  | [] => []
  | c :: rest =>
    if c == '/' && rest.head? == some '/' then
      c :: rest.takeWhile (· != '\n') ++ expandFrom false (rest.dropWhile (· != '\n'))
    else if c == '/' && rest.head? == some '*' then
      let comment := splitComment (rest.drop 1)
      c :: '*' :: comment.1 ++ expandFrom false comment.2
    else if c == '"' || c == '\'' then
      let lit := splitLiteral c (c == '"' && afterAt) rest
      c :: lit.1 ++ expandFrom false lit.2
    else
      match _h : interpolationBody? (c :: rest) with
      | some (verbatim, body) =>
        let r := splitHoles verbatim body
        ' ' :: r.1.attach.flatMap (fun hole => '(' :: expand hole.1 ++ [')', ' ']) ++ expandFrom false r.2
      | none => c :: expandFrom (c == '@') rest
termination_by cs => (cs.length, 0)
decreasing_by
  · apply Prod.Lex.left
    have := (List.dropWhile_suffix (fun d => d != '\n') (l := rest)).length_le
    simp only [List.length_cons]; omega
  · apply Prod.Lex.left
    have := splitComment_length (rest.drop 1)
    simp only [List.length_drop, List.length_cons] at this ⊢; omega
  · apply Prod.Lex.left
    have := splitLiteral_length c (c == '"' && afterAt) rest
    simp only [List.length_cons]; omega
  · apply Prod.Lex.left
    have hb := interpolationBody?_length _h
    have hl := (splitHoles_length verbatim body).2 hole.1 hole.2
    simp only [List.length_cons] at hb ⊢; omega
  · apply Prod.Lex.left
    have hb := interpolationBody?_length _h
    have hl := (splitHoles_length verbatim body).1
    simp only [List.length_cons] at hb ⊢; omega
  · apply Prod.Lex.left
    simp

end

end TypeDoctrine.Source
