import Mathlib.Data.List.TakeWhile
import TypeDoctrine.Proofs.Source.Comment
import TypeDoctrine.Proofs.Source.Nesting

/-!
# Text without interpolated strings

The expansion replaces interpolated strings and copies everything else. A text is read from the front, a comment, a
literal or a character of code at a time; where an interpolated string opens between two of those, the text meets it
(`MeetsOpener`). What opens inside a comment or literal is not met, and what follows a comment or literal without an end
is part of it.

The expansion leaves a text as it is exactly if it meets no interpolated string (`expandFrom_eq_self_iff`). Without a
dollar sign it meets none, so testing for one first changes nothing.
-/

namespace TypeDoctrine.Source

/-- What a comment, a literal or an interpolated string opens with. -/
def openings : List (List Char) :=
  [['/', '/'], ['/', '*'], ['"'], ['@', '"'], ['\''], ['$', '"'], ['$', '@', '"'], ['@', '$', '"']]

/-- What is copied in one piece before the rest of a text. -/
inductive Copied : List Char → List Char → Prop where
  | comment (c : Comment) (rest : List Char) : Copied c.text rest
  | literal (l : Literal) {rest : List Char} (isEnd : l.isVerbatim = true → rest.head? ≠ some '"') : Copied l.text rest
  | code {c : Char} {rest : List Char} (opensNothing : ∀ opening ∈ openings, ¬ opening <+: c :: rest) : Copied [c] rest

/-- An interpolated string opens after pieces that are copied. -/
inductive MeetsOpener : List Char → Prop where
  | here (o : Opener) (rest : List Char) : MeetsOpener (o.text ++ rest)
  | after {x rest : List Char} (copied : Copied x rest) (met : MeetsOpener rest) : MeetsOpener (x ++ rest)

/-! ## Where comments and literals end -/

/-- A comment takes everything, or it ends at its first closing mark. -/
theorem splitComment_cases (cs : List Char) :
    (splitComment cs).2 = [] ∨
      ∃ body, cs = body ++ '*' :: '/' :: (splitComment cs).2 ∧ ¬ ['*', '/'] <:+: body := by
  fun_induction splitComment cs with
  | case1 rest => exact .inr ⟨[], rfl, by simp⟩
  | case2 c rest hne r ih =>
    rcases ih with hnil | ⟨body, hrest, hbody⟩
    · exact .inl hnil
    · refine .inr ⟨c :: body, congrArg (c :: ·) hrest, ?_⟩
      rw [List.infix_cons_iff, prefix_pair_iff, not_or]
      refine ⟨?_, hbody⟩
      rintro ⟨rfl, hhead⟩
      obtain ⟨tail, rfl⟩ := List.head?_eq_some_iff.1 hhead
      exact hne _ rfl hrest
  | case3 => exact .inl rfl

/-- A literal takes everything, or it is closed. -/
theorem splitLiteral_cases (quote : Char) (verbatim : Bool) (cs : List Char) :
    (splitLiteral quote verbatim cs).2 = [] ∨
      EndsBefore quote verbatim cs (splitLiteral quote verbatim cs).2 := by
  fun_induction splitLiteral quote verbatim cs with
  | case1 | case2 => exact .inl rfl
  | case3 c d rest hc r ih =>
    simp only [Bool.or_eq_true, Bool.and_eq_true, beq_iff_eq, Bool.not_eq_true'] at hc
    rcases hc with ⟨rfl, rfl⟩ | ⟨⟨rfl, rfl⟩, rfl⟩
    · exact ih.imp_right (·.escape d)
    · exact ih.imp_right (·.double)
  | case4 c d rest hc hquote =>
    obtain rfl := beq_iff_eq.1 hquote
    refine .inr ⟨[], rfl, .nil, ?_⟩
    rintro rfl hd
    obtain rfl := Option.some.inj hd
    simp at hc
  | case5 c d rest hc hquote r ih =>
    have hne : c ≠ quote := fun h => hquote (beq_iff_eq.2 h)
    have hescape : verbatim = true ∨ c ≠ '\\' := by
      cases verbatim with
      | true => exact .inl rfl
      | false => exact .inr fun h => hc (by simp [h])
    exact ih.imp_right (·.char hne hescape)

/-! ## One piece -/

theorem interpolationBody?_text (o : Opener) (rest : List Char) :
    interpolationBody? (o.text ++ rest) = some (o.isVerbatim, rest) := by
  cases o <;> rfl

theorem interpolationBody?_eq_some {cs body : List Char} {verbatim : Bool}
    (h : interpolationBody? cs = some (verbatim, body)) : ∃ o : Opener, cs = o.text ++ body := by
  unfold interpolationBody? at h
  split at h <;> simp only [Option.some.injEq, Prod.mk.injEq, reduceCtorEq] at h <;> obtain ⟨-, rfl⟩ := h
  · exact ⟨.dollar, rfl⟩
  · exact ⟨.dollarAt, rfl⟩
  · exact ⟨.atDollar, rfl⟩

theorem interpolationBody?_eq_none {cs : List Char} (h : ∀ o : Opener, ¬ o.text <+: cs) :
    interpolationBody? cs = none := by
  apply Option.eq_none_iff_forall_ne_some.2
  intro r hsome
  obtain ⟨o, rfl⟩ := interpolationBody?_eq_some hsome
  exact h o (List.prefix_append _ _)

theorem expandFrom_afterAt {cs : List Char} (h : cs.head? ≠ some '"') (afterAt : Bool) :
    expandFrom afterAt cs = expandFrom false cs := by
  cases cs with
  | nil => rw [expandFrom.eq_1, expandFrom.eq_1]
  | cons c cs =>
    have hc : (c == '"') = false := by simpa using h
    rw [expandFrom.eq_2, expandFrom.eq_2, hc, Bool.false_and, Bool.false_and]

theorem expandFrom_quote {quote : Char} (hquote : quote = '"' ∨ quote = '\'') (afterAt : Bool) (cs : List Char) :
    expandFrom afterAt (quote :: cs) = quote :: (splitLiteral quote (quote == '"' && afterAt) cs).1 ++
      expandFrom false (splitLiteral quote (quote == '"' && afterAt) cs).2 := by
  have hslash : quote ≠ '/' := by rcases hquote with rfl | rfl <;> decide
  rw [expandFrom.eq_2, if_neg (by simp [hslash]), if_neg (by simp [hslash]), if_pos (by simpa using hquote)]

theorem LiteralBody.expandFrom_eq {quote : Char} (hquote : quote = '"' ∨ quote = '\'') {afterAt : Bool}
    {body rest : List Char} (hbody : LiteralBody quote (quote == '"' && afterAt) body)
    (hrest : (quote == '"' && afterAt) = true → rest.head? ≠ some quote) :
    expandFrom afterAt (quote :: (body ++ quote :: rest)) = quote :: (body ++ quote :: expandFrom false rest) := by
  have hne : quote ≠ '\\' := by rcases hquote with rfl | rfl <;> decide
  have hsnd := hbody.splitLiteral_eq hne hrest
  have hfst : (splitLiteral quote (quote == '"' && afterAt) (body ++ quote :: rest)).1 = body ++ [quote] := by
    have happend := splitLiteral_append quote (quote == '"' && afterAt) (body ++ quote :: rest)
    rw [hsnd] at happend
    exact List.append_cancel_right (happend.trans (List.append_cons body quote rest))
  rw [expandFrom_quote hquote, hfst, hsnd]
  simp

theorem expandFrom_atQuote (cs : List Char) :
    expandFrom false ('@' :: '"' :: cs) = '@' :: expandFrom true ('"' :: cs) := by
  rw [expandFrom.eq_2, if_neg (by simp), if_neg (by simp), if_neg (by simp)]
  rfl

theorem Literal.expandFrom_eq (l : Literal) {rest : List Char} (hrest : l.isVerbatim = true → rest.head? ≠ some '"') :
    expandFrom false (l.text ++ rest) = l.text ++ expandFrom false rest := by
  cases l with
  | string chars hbody =>
    simp only [Literal.text, List.cons_append, List.append_assoc, List.nil_append]
    exact hbody.expandFrom_eq (.inl rfl) fun h => absurd h (by decide)
  | verbatim chars hbody =>
    simp only [Literal.text, List.cons_append, List.append_assoc, List.nil_append]
    rw [expandFrom_atQuote, hbody.expandFrom_eq (.inl rfl) fun _ => hrest rfl]
  | character chars hbody =>
    simp only [Literal.text, List.cons_append, List.append_assoc, List.nil_append]
    exact hbody.expandFrom_eq (.inr rfl) fun h => absurd h (by decide)

/-- A character that opens nothing is copied, and the next one is read as if it came first. -/
theorem expandFrom_code {c : Char} {rest : List Char} (h : ∀ opening ∈ openings, ¬ opening <+: c :: rest) :
    expandFrom false (c :: rest) = c :: expandFrom false rest := by
  have hopener : interpolationBody? (c :: rest) = none :=
    interpolationBody?_eq_none fun o => h o.text (by cases o <;> decide)
  simp only [openings, List.forall_mem_cons, prefix_pair_iff] at h
  obtain ⟨hline, hblock, hquote, hverbatim, happ, -⟩ := h
  have hc : c ≠ '"' ∧ c ≠ '\'' := by
    constructor
    · rintro rfl
      exact hquote ⟨rest, rfl⟩
    · rintro rfl
      exact happ ⟨rest, rfl⟩
  have hnext : expandFrom (c == '@') rest = expandFrom false rest := by
    by_cases hat : c = '@'
    · exact expandFrom_afterAt (fun hhead => hverbatim ⟨hat, hhead⟩) _
    · rw [beq_eq_false_iff_ne.2 hat]
  rw [expandFrom.eq_2, if_neg (by simpa using hline), if_neg (by simpa using hblock), if_neg (by simp [hc])]
  split
  · next hsome => exact absurd (hopener.symm.trans hsome) (by simp)
  · rw [hnext]

theorem Copied.expandFrom_eq {x rest : List Char} (h : Copied x rest) :
    expandFrom false (x ++ rest) = x ++ expandFrom false rest := by
  cases h with
  | comment c rest => exact expandFrom_comment c rest
  | literal l hend => exact l.expandFrom_eq hend
  | code hcode => exact expandFrom_code hcode

theorem expandFrom_opener_ne (o : Opener) (rest : List Char) : expandFrom false (o.text ++ rest) ≠ o.text ++ rest := by
  obtain ⟨c, tail, htext, hc⟩ : ∃ c tail, o.text ++ rest = c :: tail ∧ ' ' ≠ c := by
    cases o <;> exact ⟨_, _, rfl, by decide⟩
  have hopen := interpolationBody?_text o rest
  rw [htext] at hopen ⊢
  rw [expandFrom_interpolation false hopen rfl]
  intro h
  exact hc (List.cons.inj h).1

/-! ## The whole text -/

/-- The text starts with a piece that is copied, or it is copied as a whole. -/
def CopiesFront (cs : List Char) : Prop :=
  (∃ x rest, cs = x ++ rest ∧ x ≠ [] ∧ Copied x rest) ∨ expandFrom false cs = cs

theorem copiesFront_line (cs : List Char) : CopiesFront ('/' :: '/' :: cs) := by
  by_cases hend : '\n' ∈ cs
  · obtain ⟨body, rest, rfl, hbody⟩ := List.eq_append_cons_of_mem hend
    rw [← Comment.line_append hbody]
    exact .inl ⟨_, rest, rfl, List.cons_ne_nil _ _, .comment (.line body hbody) rest⟩
  · have hline : ∀ c ∈ '/' :: cs, (c != '\n') = true := by
      intro c hc
      rw [bne_iff_ne]
      rintro rfl
      rcases List.mem_cons.1 hc with hc | hc
      · exact absurd hc (by decide)
      · exact hend hc
    refine .inr ?_
    rw [expandFrom.eq_2, if_pos (by simp), List.takeWhile_eq_self_iff.2 hline, List.dropWhile_eq_nil_iff.2 hline,
      expandFrom.eq_1, List.append_nil]

theorem copiesFront_block (cs : List Char) : CopiesFront ('/' :: '*' :: cs) := by
  rcases splitComment_cases cs with hnil | ⟨body, hcs, hbody⟩
  · have happend := splitComment_append cs
    rw [hnil, List.append_nil] at happend
    refine .inr ?_
    rw [expandFrom.eq_2, if_neg (by simp), if_pos (by simp)]
    simp only [List.drop_succ_cons, List.drop_zero, happend, hnil, expandFrom.eq_1, List.append_nil]
  · rw [hcs, ← Comment.block_append hbody]
    exact .inl ⟨_, _, rfl, List.cons_ne_nil _ _, .comment (.block body hbody) _⟩

/-- A literal without an end is copied as a whole. -/
theorem expandFrom_unended {quote : Char} (hquote : quote = '"' ∨ quote = '\'') {afterAt : Bool} {cs : List Char}
    (h : (splitLiteral quote (quote == '"' && afterAt) cs).2 = []) :
    expandFrom afterAt (quote :: cs) = quote :: cs := by
  have happend := splitLiteral_append quote (quote == '"' && afterAt) cs
  rw [h, List.append_nil] at happend
  rw [expandFrom_quote hquote, happend, h, expandFrom.eq_1, List.append_nil]

theorem copiesFront_literal (l : Literal) {rest : List Char} (hrest : l.isVerbatim = true → rest.head? ≠ some '"') :
    CopiesFront (l.text ++ rest) := by
  refine .inl ⟨l.text, rest, rfl, ?_, .literal l hrest⟩
  cases l <;> exact List.cons_ne_nil _ _

theorem copiesFront_string (cs : List Char) : CopiesFront ('"' :: cs) := by
  rcases splitLiteral_cases '"' false cs with hnil | ⟨body, hcs, hbody, -⟩
  · exact .inr (expandFrom_unended (.inl rfl) hnil)
  · rw [hcs, List.append_cons]
    exact copiesFront_literal (.string body hbody) nofun

theorem copiesFront_verbatim (cs : List Char) : CopiesFront ('@' :: '"' :: cs) := by
  rcases splitLiteral_cases '"' true cs with hnil | ⟨body, hcs, hbody, hrest⟩
  · refine .inr ?_
    rw [expandFrom_atQuote, expandFrom_unended (.inl rfl) hnil]
  · rw [hcs, List.append_cons]
    exact copiesFront_literal (.verbatim body hbody) hrest

theorem copiesFront_character (cs : List Char) : CopiesFront ('\'' :: cs) := by
  rcases splitLiteral_cases '\'' false cs with hnil | ⟨body, hcs, hbody, -⟩
  · exact .inr (expandFrom_unended (.inr rfl) hnil)
  · rw [hcs, List.append_cons]
    exact copiesFront_literal (.character body hbody) nofun

/-- Whatever does not open an interpolated string is copied. -/
theorem opener_or_copiesFront (cs : List Char) : (∃ o : Opener, o.text <+: cs) ∨ CopiesFront cs := by
  by_cases hopens : ∃ opening ∈ openings, opening <+: cs
  · obtain ⟨opening, hmem, rest, rfl⟩ := hopens
    simp only [openings, List.mem_cons, List.not_mem_nil, or_false] at hmem
    rcases hmem with rfl | rfl | rfl | rfl | rfl | rfl | rfl | rfl
    · exact .inr (copiesFront_line rest)
    · exact .inr (copiesFront_block rest)
    · exact .inr (copiesFront_string rest)
    · exact .inr (copiesFront_verbatim rest)
    · exact .inr (copiesFront_character rest)
    · exact .inl ⟨.dollar, rest, rfl⟩
    · exact .inl ⟨.dollarAt, rest, rfl⟩
    · exact .inl ⟨.atDollar, rest, rfl⟩
  · refine .inr ?_
    cases cs with
    | nil => exact .inr (by rw [expandFrom.eq_1])
    | cons c rest =>
      refine .inl ⟨[c], rest, rfl, List.cons_ne_nil _ _, .code fun opening hmem hopening => ?_⟩
      exact hopens ⟨opening, hmem, hopening⟩

theorem expandFrom_eq_self_iff (cs : List Char) : expandFrom false cs = cs ↔ ¬ MeetsOpener cs := by
  constructor
  · intro heq hmeets
    induction hmeets with
    | here o rest => exact expandFrom_opener_ne o rest heq
    | after hcopied _ ih =>
      rw [hcopied.expandFrom_eq] at heq
      exact ih (List.append_cancel_left heq)
  · intro hmeets
    rcases opener_or_copiesFront cs with ⟨o, rest, rfl⟩ | ⟨x, rest, rfl, hx, hcopied⟩ | heq
    · exact absurd (.here o rest) hmeets
    · have hpos := List.length_pos_iff.2 hx
      have hlt : rest.length < (x ++ rest).length := by
        rw [List.length_append]
        omega
      rw [hcopied.expandFrom_eq, (expandFrom_eq_self_iff rest).2 fun hrest => hmeets (.after hcopied hrest)]
    · exact heq
termination_by cs.length

example : MeetsOpener "/*$\"*/$\"{Code}\"".toList :=
  .after (.comment (.block ['$', '"'] (by decide)) _) (.here .dollar _)

theorem MeetsOpener.mem_dollar {cs : List Char} (h : MeetsOpener cs) : '$' ∈ cs := by
  induction h with
  | here o rest =>
    apply List.mem_append_left
    cases o <;> decide
  | after _ _ ih => exact List.mem_append_right _ ih

theorem expand_eq_expandFrom (cs : List Char) : expand cs = expandFrom false cs := by
  by_cases h : '$' ∈ cs
  · rw [expand, if_pos (List.contains_iff_mem.2 h)]
  · rw [expand_of_not_mem h, (expandFrom_eq_self_iff cs).2 fun hmeets => h hmeets.mem_dollar]

/-- A text is left as it is exactly if it meets no interpolated string, which it does not without a dollar sign; so the
expansion of any text is what the loop makes of it. -/
theorem expansion_copies (cs : List Char) :
    (expandFrom false cs = cs ↔ ¬ MeetsOpener cs) ∧ ('$' ∉ cs → expandFrom false cs = cs) ∧
      expand cs = expandFrom false cs := by
  refine ⟨expandFrom_eq_self_iff cs, fun h => ?_, expand_eq_expandFrom cs⟩
  rw [← expand_eq_expandFrom, expand_of_not_mem h]

/-- `"${Errors}"+'$'//$"{Code}"` and a line end. -/
def dollarsInLiterals : List Char :=
  (Literal.string "${Errors}".toList (.of_forall (by simp))).text ++
    '+' :: ((Literal.character ['$'] (.of_forall (by simp))).text ++
      ((Comment.line "$\"{Code}\"".toList (by decide)).text ++ []))

/-- A string without an end, and dollar signs in a string, a character and a comment. -/
theorem expansion_copies_plainText :
    ('$' ∉ "Path + @\"C:\\ // Code".toList ∧
      expandFrom false "Path + @\"C:\\ // Code".toList = "Path + @\"C:\\ // Code".toList) ∧
    ¬ MeetsOpener dollarsInLiterals := by
  refine ⟨⟨by decide, (expansion_copies _).2.1 (by decide)⟩, (expansion_copies _).1.1 ?_⟩
  unfold dollarsInLiterals
  rw [Literal.expandFrom_eq _ (by decide), expandFrom_cons (by decide), Literal.expandFrom_eq _ (by decide),
    expandFrom_comment, expandFrom.eq_1]

end TypeDoctrine.Source
