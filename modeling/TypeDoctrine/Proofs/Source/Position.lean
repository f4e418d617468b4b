import TypeDoctrine.Proofs.Source.Copying

/-!
# Expansion by position

The expansion of interpolated strings, done over a text that stays as it is and positions that move through it. The
ends of comments, literals and holes are searched for, and pieces of the text are cut out between positions. Whatever
could go wrong in that is checked where it happens and reported as a `Fault`: a piece that is not in the text, a bracket
depth below zero, a hole as long as the text around it, and a step to a position that was searched for and does not
advance. Steps by one or two characters advance by themselves, or the loops would not be accepted.

No check ever fails: for every text the result is that of `expand` (`expandText_eq`). Each search is compared with the
function that splits the rest of the text (`stops_literalEnd`, `stops_commentEnd`, `holeEnd_eq`, `expandHoles_eq`); a
position stands for the rest `cs.drop i`, and one that is past the end for the empty rest. An at sign before a string is
looked up in the text here and carried along as a flag there (`FlagsAt`).
-/

namespace TypeDoctrine.Source

/-- What can go wrong in a scan by position. -/
inductive Fault where
  /-- The piece is not in the text. -/
  | piece (start stop : Nat)
  /-- A closing brace lowers a bracket depth of zero. -/
  | depth (position : Nat)
  /-- The step does not advance. -/
  | standstill (start stop : Nat)
  /-- The hole is not shorter than the text around it. -/
  | hole (length : Nat)
  /-- The piece starts or ends within a character. -/
  | cut (start stop : Nat)
deriving DecidableEq, Repr

namespace ByPosition

section Scanner

variable (cs : List Char)

/-- The piece of the text between two positions. -/
def piece (start stop : Nat) : Except Fault (List Char) :=
  if start ≤ stop ∧ stop ≤ cs.length then .ok ((cs.take stop).drop start) else .error (.piece start stop)

/-- Whether an at sign stands before a position. -/
def followsAt (i : Nat) : Bool :=
  0 < i && cs[i - 1]? == some '@'

/-- The position after the closing quote of a literal whose body starts here. -/
def literalEnd (quote : Char) (verbatim : Bool) (i : Nat) : Nat :=
  if h : i < cs.length then
    if cs[i] == '\\' && !verbatim then literalEnd quote verbatim (i + 2)
    else if cs[i] == quote && verbatim && cs[i + 1]? == some quote then literalEnd quote verbatim (i + 2)
    else if cs[i] == quote then i + 1
    else literalEnd quote verbatim (i + 1)
  else cs.length
termination_by cs.length - i

/-- The position after the literal that a quote here opens. -/
def quotedEnd (i : Nat) (quote : Char) : Nat :=
  literalEnd cs quote (quote == '"' && followsAt cs i) (i + 1)

/-- The place of the first closing mark of a comment. -/
def closingIdx? : List Char → Option Nat
  | '*' :: '/' :: _ => some 0
  | _ :: rest => (closingIdx? rest).map (· + 1)
  | [] => none

/-- The end of the line that a position is in. -/
def lineEnd (i : Nat) : Except Fault Nat := do
  let tail ← piece cs i cs.length
  return (tail.findIdx? (· == '\n')).elim cs.length (i + ·)

/-- The position after the closing mark of a comment that starts here. -/
def commentEnd (i : Nat) : Except Fault Nat := do
  let tail ← piece cs (i + 2) cs.length
  return (closingIdx? tail).elim cs.length (i + 2 + · + 2)

/-- The bracket depth after a character. Of closing brackets, only a brace counts on another being open. -/
def checkedDepth (i depth : Nat) (c : Char) : Except Fault Nat :=
  if c == '(' || c == '[' || c == '{' then .ok (depth + 1)
  else if c == ')' || c == ']' then .ok (depth - 1)
  else if c == '}' then if depth = 0 then .error (.depth i) else .ok (depth - 1)
  else .ok depth

/-- Where the expression of a hole ends and where its closing brace stands. A colon outside brackets has been seen if
there is an end already. -/
def holeEnd (depth : Nat) (exprEnd : Option Nat) (i : Nat) : Except Fault (Nat × Nat) :=
  if h : i < cs.length then
    if cs[i] == '"' || cs[i] == '\'' then
      if i < quotedEnd cs i cs[i] then holeEnd depth exprEnd (quotedEnd cs i cs[i])
      else .error (.standstill i (quotedEnd cs i cs[i]))
    else if cs[i] == '}' && depth == 0 then .ok (exprEnd.getD i, i)
    else if cs[i] == ':' && depth == 0 && exprEnd.isNone then holeEnd depth (some i) (i + 1)
    else
      match checkedDepth i depth cs[i] with
      | .ok depth => holeEnd depth exprEnd (i + 1)
      | .error fault => .error fault
  else .ok (exprEnd.getD cs.length, cs.length)
termination_by cs.length - i

/-- The text that an interpolated string leaves whose body starts here, and the position after its closing quote. Holes
are handed to `nested`. -/
def expandHoles (nested : (hole : List Char) → hole.length < cs.length → Except Fault (List Char)) (verbatim : Bool)
    (i : Nat) : Except Fault (List Char × Nat) :=
  if h : i < cs.length then
    if cs[i] == '\\' && !verbatim then expandHoles nested verbatim (i + 2)
    else if cs[i] == '"' && verbatim && cs[i + 1]? == some '"' then expandHoles nested verbatim (i + 2)
    else if cs[i] == '"' then .ok ([], i + 1)
    else if (cs[i] == '{' || cs[i] == '}') && cs[i + 1]? == some cs[i] then expandHoles nested verbatim (i + 2)
    else if cs[i] == '{' then do
      let (exprEnd, close) ← holeEnd cs 0 none (i + 1)
      let hole ← piece cs (i + 1) exprEnd
      let expanded ← if hs : hole.length < cs.length then nested hole hs else .error (.hole hole.length)
      if i < close + 1 then
        let (text, stop) ← expandHoles nested verbatim (close + 1)
        return ('(' :: expanded ++ [')', ' '] ++ text, stop)
      else .error (.standstill i (close + 1))
    else expandHoles nested verbatim (i + 1)
  else .ok ([], cs.length)
termination_by cs.length - i

/-- Recognises the opener of an interpolated string: its length and whether the string is verbatim. -/
def opener? : List Char → Option (Nat × Bool)
  | '$' :: '"' :: _ => some (2, false)
  | '$' :: '@' :: '"' :: _ => some (3, true)
  | '@' :: '$' :: '"' :: _ => some (3, true)
  | _ => none

/-- The end of the comment or literal that starts with a character at a position, if one does. -/
def copiedEnd (i : Nat) (c : Char) : Except Fault (Option Nat) :=
  if c == '/' && cs[i + 1]? == some '/' then some <$> lineEnd cs i
  else if c == '/' && cs[i + 1]? == some '*' then some <$> commentEnd cs i
  else if c == '"' || c == '\'' then .ok (some (quotedEnd cs i c))
  else .ok none

/-- The loop that copies comments and literals and expands interpolated strings, from a position on. -/
def expandLoop (nested : (hole : List Char) → hole.length < cs.length → Except Fault (List Char)) (i : Nat) :
    Except Fault (List Char) :=
  if h : i < cs.length then do
    match ← copiedEnd cs i cs[i] with
    | some stop =>
      let copied ← piece cs i stop
      if i < stop then
        return copied ++ (← expandLoop nested stop)
      else .error (.standstill i stop)
    | none =>
      match opener? (← piece cs i cs.length) with
      | some (width, verbatim) =>
        let (text, stop) ← expandHoles cs nested verbatim (i + width)
        if i < stop then
          return ' ' :: text ++ (← expandLoop nested stop)
        else .error (.standstill i stop)
      | none => return cs[i] :: (← expandLoop nested (i + 1))
  else .ok []
termination_by cs.length - i

end Scanner

/-- Replaces every interpolated string by its holes. -/
def expandText (cs : List Char) : Except Fault (List Char) :=
  if cs.contains '$' then expandLoop cs (fun hole _ => expandText hole) 0 else .ok cs
termination_by cs.length

theorem bind_ok {α β : Type} (a : α) (f : α → Except Fault β) : (Except.ok a >>= f) = f a :=
  rfl

/-! ## What the list scanners leave -/

theorem splitLiteral_snd_cons (quote c : Char) (verbatim : Bool) (rest : List Char) :
    (splitLiteral quote verbatim (c :: rest)).2 =
      if (c == '\\' && !verbatim) || (c == quote && verbatim && rest.head? == some quote) then
        (splitLiteral quote verbatim (rest.drop 1)).2
      else if c == quote then rest
      else (splitLiteral quote verbatim rest).2 := by
  cases rest with
  | nil => simp [splitLiteral]
  | cons d rest =>
    rw [splitLiteral]
    simp only [List.head?_cons, Option.some_beq_some, List.drop_succ_cons, List.drop_zero]
    split
    · rfl
    · split <;> rfl

/-- A literal takes everything, or what it leaves stands after its quote. -/
theorem splitLiteral_suffix (quote : Char) (verbatim : Bool) (cs : List Char) :
    (splitLiteral quote verbatim cs).2 = [] ∨ quote :: (splitLiteral quote verbatim cs).2 <:+ cs := by
  rcases splitLiteral_cases quote verbatim cs with hnil | ⟨body, hcs, -⟩
  · exact .inl hnil
  · exact .inr ⟨body, hcs.symm⟩

theorem splitComment_suffix (cs : List Char) :
    (splitComment cs).2 = [] ∨ '/' :: (splitComment cs).2 <:+ cs := by
  rcases splitComment_cases cs with hnil | ⟨body, hcs, -⟩
  · exact .inl hnil
  · exact .inr ⟨body ++ ['*'], (hcs.trans (List.append_cons body '*' _)).symm⟩

theorem splitHole_snd_suffix (depth : Nat) (afterAt inFormat : Bool) (cs : List Char) :
    (splitHole depth afterAt inFormat cs).2 <:+ cs := by
  fun_induction splitHole depth afterAt inFormat cs with
  | case1 => exact List.suffix_refl _
  | case2 depth afterAt inFormat c rest hc lit r ih =>
    have hlit : lit.2 <:+ rest := ⟨lit.1, splitLiteral_append c _ rest⟩
    exact ih.trans (hlit.trans (List.suffix_cons c rest))
  | case3 depth afterAt inFormat c rest => exact List.suffix_cons c rest
  | case4 depth afterAt inFormat c rest _ _ _ ih => exact ih.trans (List.suffix_cons c rest)
  | case5 depth afterAt inFormat c rest _ _ _ r ih => exact ih.trans (List.suffix_cons c rest)

theorem splitHoles_suffix (verbatim : Bool) (cs : List Char) :
    (splitHoles verbatim cs).2 = [] ∨ '"' :: (splitHoles verbatim cs).2 <:+ cs := by
  fun_induction splitHoles verbatim cs with
  | case1 => exact .inl rfl
  | case2 c rest _ ih | case3 c rest _ _ ih | case5 c rest _ _ _ _ ih =>
    exact ih.imp_right fun h => h.trans ((List.drop_suffix 1 rest).trans (List.suffix_cons c rest))
  | case4 c rest _ _ hc =>
    obtain rfl := beq_iff_eq.1 hc
    exact .inr (List.suffix_refl _)
  | case6 c rest _ _ _ _ _ hole r ih =>
    have hhole : hole.2 <:+ rest := splitHole_snd_suffix 0 false false rest
    exact ih.imp_right fun h => h.trans (hhole.trans (List.suffix_cons c rest))
  | case7 c rest _ _ _ _ _ ih => exact ih.imp_right fun h => h.trans (List.suffix_cons c rest)

/-- Nothing of a format is part of the expression. -/
theorem splitHole_format_fst (depth : Nat) (afterAt : Bool) (cs : List Char) :
    (splitHole depth afterAt true cs).1 = [] := by
  generalize hf : true = inFormat
  fun_induction splitHole depth afterAt inFormat cs with
  | case1 | case3 => rfl
  | case2 depth afterAt inFormat c rest hc lit r ih =>
    subst hf
    exact ih rfl
  | case4 depth afterAt inFormat c rest _ _ _ ih => exact ih rfl
  | case5 depth afterAt inFormat c rest _ _ _ r ih =>
    subst hf
    exact ih rfl

/-! ## Positions and rests -/

/-- `stop` is a position of the text, not before `i`, and `rest` is what follows it. -/
structure Stops (cs : List Char) (i stop : Nat) (rest : List Char) : Prop where
  le_stop : i ≤ stop
  stop_le : stop ≤ cs.length
  drop_stop : cs.drop stop = rest

section Positions

variable {cs : List Char} {i stop : Nat} {x rest : List Char}

theorem Stops.piece_eq (h : Stops cs i stop rest) (hx : cs.drop i = x ++ rest) : piece cs i stop = .ok x := by
  have hsplit : cs.drop i = (cs.take stop).drop i ++ cs.drop stop := by
    have htake : i ≤ (cs.take stop).length := by
      rw [List.length_take_of_le h.stop_le]
      exact h.le_stop
    rw [← List.drop_append_of_le_length htake, List.take_append_drop]
  rw [h.drop_stop, hx] at hsplit
  rw [piece, if_pos ⟨h.le_stop, h.stop_le⟩, List.append_cancel_right hsplit]

theorem piece_tail (h : i ≤ cs.length) : piece cs i cs.length = .ok (cs.drop i) :=
  Stops.piece_eq ⟨h, Nat.le_refl _, List.drop_length⟩ (List.append_nil _).symm

/-- The flag tells whether an at sign stands before the string that starts at a position. Where none starts, the flag
is not read and may be anything. -/
def FlagsAt (cs : List Char) (i : Nat) (afterAt : Bool) : Prop :=
  cs[i]? = some '"' → afterAt = followsAt cs i

theorem flagsAt_followsAt (cs : List Char) (i : Nat) : FlagsAt cs i (followsAt cs i) :=
  fun _ => rfl

theorem flagsAt_succ (h : i < cs.length) : FlagsAt cs (i + 1) (cs[i] == '@') := by
  intro _
  simp [followsAt, h]

theorem flagsAt_succ_of_ne (h : i < cs.length) (hc : cs[i] ≠ '@') : FlagsAt cs (i + 1) false := by
  rw [← beq_eq_false_iff_ne.2 hc]
  exact flagsAt_succ h

/-- What follows a position stands behind another character than an at sign, or there is nothing. -/
theorem flagsAt_of_suffix {c : Char} (hc : c ≠ '@') (h : rest = [] ∨ c :: rest <:+ cs) (hstop : cs.drop stop = rest) :
    FlagsAt cs stop false := by
  intro hnext
  rw [← List.head?_drop, hstop] at hnext
  rcases h with rfl | ⟨pre, rfl⟩
  · exact absurd hnext nofun
  · have hpos : 0 < rest.length := List.length_pos_of_mem (List.mem_of_head? hnext)
    have hlength := congrArg List.length hstop
    simp only [List.length_drop, List.length_append, List.length_cons] at hlength
    obtain rfl : stop = pre.length + 1 := by omega
    simp [followsAt, hc]

end Positions

/-! ## Ends of literals and comments -/

section Ends

variable (cs : List Char)

theorem stops_literalEnd (quote : Char) (verbatim : Bool) (i : Nat) :
    Stops cs (min i cs.length) (literalEnd cs quote verbatim i) (splitLiteral quote verbatim (cs.drop i)).2 := by
  fun_induction literalEnd cs quote verbatim i with
  | case1 i h hc ih =>
    refine ⟨by have := ih.le_stop; omega, ih.stop_le, ?_⟩
    rw [ih.drop_stop, List.drop_eq_getElem_cons h, splitLiteral_snd_cons, if_pos (by simp [hc]), List.drop_drop]
  | case2 i h hc hd ih =>
    refine ⟨by have := ih.le_stop; omega, ih.stop_le, ?_⟩
    rw [ih.drop_stop, List.drop_eq_getElem_cons h, splitLiteral_snd_cons, List.head?_drop, if_pos (by simp [hd]),
      List.drop_drop]
  | case3 i h hc hd hq =>
    refine ⟨by omega, h, ?_⟩
    rw [List.drop_eq_getElem_cons h, splitLiteral_snd_cons, List.head?_drop, if_neg (by simp_all), if_pos hq]
  | case4 i h hc hd hq ih =>
    refine ⟨by have := ih.le_stop; omega, ih.stop_le, ?_⟩
    rw [ih.drop_stop, List.drop_eq_getElem_cons h, splitLiteral_snd_cons, List.head?_drop, if_neg (by simp_all),
      if_neg hq]
  | case5 i h =>
    have hnil : cs.drop i = [] := List.drop_eq_nil_of_le (Nat.le_of_not_lt h)
    refine ⟨Nat.min_le_right _ _, Nat.le_refl _, ?_⟩
    rw [hnil, List.drop_length]
    rfl

/-- A literal ends where it is split, and where it ends no at sign stands before. -/
theorem stops_quotedEnd {cs : List Char} {i : Nat} (h : i < cs.length) (hc : (cs[i] == '"' || cs[i] == '\'') = true)
    {afterAt : Bool} (hat : FlagsAt cs i afterAt) :
    Stops cs (i + 1) (quotedEnd cs i cs[i]) (splitLiteral cs[i] (cs[i] == '"' && afterAt) (cs.drop (i + 1))).2 ∧
      FlagsAt cs (quotedEnd cs i cs[i]) false := by
  have hflag : (cs[i] == '"' && followsAt cs i) = (cs[i] == '"' && afterAt) := by
    by_cases hq : cs[i] = '"'
    · rw [hat (by rw [List.getElem?_eq_getElem h, hq])]
    · rw [beq_eq_false_iff_ne.2 hq, Bool.false_and, Bool.false_and]
  have hquote : cs[i] ≠ '@' := by
    intro hq
    simp [hq] at hc
  rw [← hflag]
  have hends : Stops cs (i + 1) (quotedEnd cs i cs[i]) (splitLiteral cs[i] (cs[i] == '"' && followsAt cs i)
      (cs.drop (i + 1))).2 := by
    have hends := stops_literalEnd cs cs[i] (cs[i] == '"' && followsAt cs i) (i + 1)
    rwa [Nat.min_eq_left h] at hends
  have hsuffix := splitLiteral_suffix cs[i] (cs[i] == '"' && followsAt cs i) (cs.drop (i + 1))
  exact ⟨hends, flagsAt_of_suffix hquote (hsuffix.imp_right fun hs => hs.trans (List.drop_suffix _ _))
    hends.drop_stop⟩

theorem stops_lineEnd {i : Nat} (h : i ≤ cs.length) :
    ∃ stop, lineEnd cs i = .ok stop ∧ Stops cs i stop ((cs.drop i).dropWhile (· != '\n')) := by
  have hnot : (fun c => !(c != '\n')) = fun c : Char => c == '\n' := by
    funext c
    simp [bne]
  have hle : (cs.drop i).findIdx (· == '\n') ≤ (cs.drop i).length := List.findIdx_le_length
  rw [List.dropWhile_eq_drop_findIdx_not, hnot, List.drop_drop, lineEnd, piece_tail h]
  rw [List.length_drop] at hle
  refine ⟨i + (cs.drop i).findIdx (· == '\n'), ?_, Nat.le_add_right _ _, by omega, rfl⟩
  rw [bind_ok, List.findIdx_eq_getD_findIdx?]
  cases (cs.drop i).findIdx? (· == '\n') with
  | none =>
    rw [Option.getD_none, List.length_drop, Nat.add_sub_cancel' h]
    rfl
  | some n => rfl

theorem closingIdx?_splitComment (cs : List Char) :
    match closingIdx? cs with
    | some n => n + 2 ≤ cs.length ∧ (splitComment cs).2 = cs.drop (n + 2)
    | none => (splitComment cs).2 = [] := by
  fun_induction closingIdx? cs with
  | case1 rest => simp [splitComment]
  | case2 c rest hne ih =>
    have hsplit : (splitComment (c :: rest)).2 = (splitComment rest).2 := by
      rw [splitComment]
      exact hne
    rw [hsplit]
    cases hidx : closingIdx? rest with
    | none => simpa [hidx] using ih
    | some n => simpa [hidx] using ih
  | case3 => rfl

theorem stops_commentEnd {i : Nat} (h : i + 2 ≤ cs.length) :
    ∃ stop, commentEnd cs i = .ok stop ∧ Stops cs (i + 2) stop (splitComment (cs.drop (i + 2))).2 := by
  have hidx := closingIdx?_splitComment (cs.drop (i + 2))
  rw [commentEnd, piece_tail h]
  refine ⟨_, rfl, ?_⟩
  cases hc : closingIdx? (cs.drop (i + 2)) with
  | none =>
    rw [hc] at hidx
    exact ⟨h, Nat.le_refl _, List.drop_length.trans hidx.symm⟩
  | some n =>
    rw [hc] at hidx
    obtain ⟨hle, hdrop⟩ := hidx
    rw [List.length_drop] at hle
    refine ⟨?_, ?_, ?_⟩
    · simp only [Option.elim_some]
      omega
    · simp only [Option.elim_some]
      omega
    · rw [hdrop, List.drop_drop]
      rfl

end Ends

/-! ## Holes -/

section Holes

variable {cs : List Char}

/-- A depth is lowered only where a bracket is open, or where no brace asks for one. -/
theorem checkedDepth_eq (i : Nat) {depth : Nat} {c : Char} (h : ¬ (c == '}' && depth == 0) = true) :
    checkedDepth i depth c = .ok (depthAfter depth c) := by
  unfold checkedDepth depthAfter
  by_cases hopen : (c == '(' || c == '[' || c == '{') = true
  · rw [if_pos hopen, if_pos hopen]
  · rw [if_neg hopen, if_neg hopen]
    by_cases hc : c = '}'
    · have hdepth : depth ≠ 0 := by simpa [hc] using h
      simp [hc, hdepth]
    · have hbeq : (c == '}') = false := beq_eq_false_iff_ne.2 hc
      simp only [hbeq, Bool.or_false, Bool.false_eq_true, if_false]
      split <;> rfl

/-- What is found of a hole that is scanned from `i` on: where its expression ends, unless that is known before, and
where its brace stands. `split` is the hole and what follows it. -/
structure FindsHole (cs : List Char) (i : Nat) (exprEnd : Option Nat) (split : List Char × List Char)
    (found : Nat × Nat) : Prop where
  le_close : i ≤ found.2
  close_le : found.2 ≤ cs.length
  drop_close : cs.drop (found.2 + 1) = split.2
  expr : exprEnd.elim (i ≤ found.1 ∧ found.1 ≤ found.2 ∧ cs.drop i = split.1 ++ cs.drop found.1) (found.1 = ·)

/-- A piece that is passed over first belongs to the expression, unless that has ended. -/
theorem FindsHole.passed {i stop : Nat} {exprEnd : Option Nat} {x : List Char} {split : List Char × List Char}
    {found : Nat × Nat} (h : FindsHole cs stop exprEnd split found) (hi : i ≤ stop)
    (hx : cs.drop i = x ++ cs.drop stop) :
    FindsHole cs i exprEnd (if exprEnd.isSome then split.1 else x ++ split.1, split.2) found := by
  refine ⟨Nat.le_trans hi h.le_close, h.close_le, h.drop_close, ?_⟩
  have hexpr := h.expr
  cases exprEnd with
  | none =>
    obtain ⟨hle, hclose, hdrop⟩ := hexpr
    refine ⟨Nat.le_trans hi hle, hclose, ?_⟩
    rw [hx, hdrop, ← List.append_assoc]
    rfl
  | some _ => exact hexpr

theorem holeEnd_eq (depth : Nat) (exprEnd : Option Nat) (i : Nat) {afterAt : Bool} (hi : i ≤ cs.length)
    (hat : FlagsAt cs i afterAt) :
    ∃ found, holeEnd cs depth exprEnd i = .ok found ∧
      FindsHole cs i exprEnd (splitHole depth afterAt exprEnd.isSome (cs.drop i)) found := by
  fun_induction holeEnd cs depth exprEnd i generalizing afterAt with
  | case1 depth exprEnd i h hc hstop ih =>
    obtain ⟨hlit, hbefore⟩ := stops_quotedEnd h hc hat
    obtain ⟨found, heq, hfound⟩ := ih hlit.stop_le hbefore
    have hpassed := hfound.passed (Nat.le_of_lt hstop)
      (x := cs[i] :: (splitLiteral cs[i] (cs[i] == '"' && afterAt) (cs.drop (i + 1))).1) (by
        rw [hlit.drop_stop, List.cons_append, splitLiteral_append, List.drop_eq_getElem_cons h])
    refine ⟨found, heq, ?_⟩
    rw [hlit.drop_stop] at hpassed
    rw [List.drop_eq_getElem_cons h, splitHole.eq_2, if_pos hc]
    exact hpassed
  | case2 depth exprEnd i h hc hstop =>
    obtain ⟨hlit, -⟩ := stops_quotedEnd h hc hat
    exact absurd hlit.le_stop hstop
  | case3 depth exprEnd i h hc hclose =>
    have hsplit : splitHole depth afterAt exprEnd.isSome (cs.drop i) = ([], cs.drop (i + 1)) := by
      rw [List.drop_eq_getElem_cons h, splitHole.eq_2, if_neg hc, if_pos hclose]
    rw [hsplit]
    refine ⟨_, rfl, Nat.le_refl _, hi, rfl, ?_⟩
    cases exprEnd with
    | none => exact ⟨Nat.le_refl _, Nat.le_refl _, rfl⟩
    | some x => rfl
  | case4 depth exprEnd i h hc hclose hcolon ih =>
    simp only [Bool.and_eq_true, beq_iff_eq, Option.isNone_iff_eq_none] at hcolon
    obtain ⟨⟨hchar, rfl⟩, rfl⟩ := hcolon
    obtain ⟨found, heq, hfound⟩ := ih h (flagsAt_succ_of_ne h (by rw [hchar]; decide))
    have hsplit : splitHole 0 afterAt false (cs.drop i) = splitHole 0 false true (cs.drop (i + 1)) := by
      rw [List.drop_eq_getElem_cons h, splitHole.eq_2, if_neg hc, if_neg hclose, if_pos (by simp [hchar])]
    have hexpr : found.1 = i := hfound.expr
    refine ⟨found, heq, Nat.le_of_succ_le hfound.le_close, hfound.close_le, ?_, ?_⟩
    · rw [hfound.drop_close, Option.isSome_none, hsplit]
      rfl
    · rw [Option.isSome_none, hsplit, splitHole_format_fst, hexpr]
      exact ⟨Nat.le_refl _, Nat.le_of_succ_le hfound.le_close, rfl⟩
  | case5 depth exprEnd i h hc hclose hcolon depth' hdepth ih =>
    rw [checkedDepth_eq i hclose] at hdepth
    obtain rfl := Except.ok.inj hdepth
    obtain ⟨found, heq, hfound⟩ := ih h (flagsAt_succ h)
    have hpassed := hfound.passed (Nat.le_succ i) (x := [cs[i]]) (List.drop_eq_getElem_cons h)
    refine ⟨found, heq, ?_⟩
    rw [List.drop_eq_getElem_cons h, splitHole.eq_2, if_neg hc, if_neg hclose, if_neg (by simpa using hcolon)]
    exact hpassed
  | case6 depth exprEnd i h hc hclose hcolon fault hdepth =>
    rw [checkedDepth_eq i hclose] at hdepth
    cases hdepth
  | case7 depth exprEnd i h =>
    obtain rfl : i = cs.length := by omega
    refine ⟨_, rfl, Nat.le_refl _, Nat.le_refl _, ?_, ?_⟩
    · rw [List.drop_length, splitHole.eq_1]
      simp
    · rw [List.drop_length, splitHole.eq_1]
      cases exprEnd with
      | none => exact ⟨Nat.le_refl _, Nat.le_refl _, by simp⟩
      | some x => rfl

/-- The holes of a string whose body starts at `i` are handed on, and the scan stops after its quote. -/
def FindsHoles (cs : List Char) (verbatim : Bool) (i : Nat) (result : Except Fault (List Char × Nat)) : Prop :=
  ∃ stop, result =
      .ok ((splitHoles verbatim (cs.drop i)).1.flatMap (fun hole => '(' :: expand hole ++ [')', ' ']), stop) ∧
    Stops cs (min i cs.length) stop (splitHoles verbatim (cs.drop i)).2

/-- Text between the holes does not count. -/
theorem FindsHoles.skip {verbatim : Bool} {i n : Nat} {result : Except Fault (List Char × Nat)}
    (h : FindsHoles cs verbatim (i + n) result)
    (hsplit : splitHoles verbatim (cs.drop i) = splitHoles verbatim (cs.drop (i + n))) :
    FindsHoles cs verbatim i result := by
  obtain ⟨stop, heq, hstop⟩ := h
  have hle := hstop.le_stop
  refine ⟨stop, ?_, by omega, hstop.stop_le, ?_⟩
  · rw [hsplit, heq]
  · rw [hsplit, hstop.drop_stop]

theorem expandHoles_eq {nested : (hole : List Char) → hole.length < cs.length → Except Fault (List Char)}
    (hnested : ∀ hole h, nested hole h = .ok (expand hole)) (verbatim : Bool) (i : Nat) :
    FindsHoles cs verbatim i (expandHoles cs nested verbatim i) := by
  fun_induction expandHoles cs nested verbatim i with
  | case1 i h hc ih =>
    apply ih.skip
    rw [List.drop_eq_getElem_cons h, splitHoles.eq_2, if_pos hc, List.drop_drop]
  | case2 i h hc hd ih =>
    apply ih.skip
    rw [List.drop_eq_getElem_cons h, splitHoles.eq_2, if_neg hc, List.head?_drop, if_pos hd, List.drop_drop]
  | case3 i h hc hd hq =>
    have hsplit : splitHoles verbatim (cs.drop i) = ([], cs.drop (i + 1)) := by
      rw [List.drop_eq_getElem_cons h, splitHoles.eq_2, if_neg hc, List.head?_drop, if_neg hd, if_pos hq]
    refine ⟨i + 1, ?_, by omega, h, ?_⟩ <;> rw [hsplit]
    rfl
  | case4 i h hc hd hq hb ih =>
    apply ih.skip
    rw [List.drop_eq_getElem_cons h, splitHoles.eq_2, if_neg hc, List.head?_drop, if_neg hd, if_neg hq, if_pos hb,
      List.drop_drop]
  | case5 i h hc hd hq hb ho ih =>
    have hat : FlagsAt cs (i + 1) false := flagsAt_succ_of_ne h (by rw [beq_iff_eq.1 ho]; decide)
    obtain ⟨⟨exprEnd, close⟩, hend, hfound⟩ := holeEnd_eq 0 none (i + 1) h hat
    obtain ⟨hle, hexpr, hdrop⟩ := hfound.expr
    have hclose : i + 1 ≤ close := hfound.le_close
    obtain ⟨stop, heq, hstop⟩ := ih close (by omega)
    -- the hole starts after its brace, so it lacks at least that
    have hlength := splitHole_length 0 false false (cs.drop (i + 1))
    rw [List.length_drop] at hlength
    have hpiece : piece cs (i + 1) exprEnd = .ok (splitHole 0 false false (cs.drop (i + 1))).1 :=
      Stops.piece_eq ⟨hle, Nat.le_trans hexpr hfound.close_le, rfl⟩ hdrop
    have hsplit : splitHoles verbatim (cs.drop i) =
        Prod.map ((splitHole 0 false false (cs.drop (i + 1))).1 :: ·) id
          (splitHoles verbatim (cs.drop (close + 1))) := by
      rw [List.drop_eq_getElem_cons h, splitHoles.eq_2, if_neg hc, List.head?_drop, if_neg hd, if_neg hq, if_neg hb,
        if_pos ho, hfound.drop_close]
      rfl
    refine ⟨stop, ?_, ?_, hstop.stop_le, ?_⟩
    · simp only [hend, bind_ok, hpiece]
      rw [dif_pos (by omega), hnested, bind_ok, if_pos (by omega), heq, bind_ok, hsplit, Prod.map_fst,
        List.flatMap_cons]
      rfl
    · have := hstop.le_stop
      omega
    · rw [hsplit, hstop.drop_stop]
      rfl
  | case6 i h hc hd hq hb ho ih =>
    apply ih.skip
    rw [List.drop_eq_getElem_cons h, splitHoles.eq_2, if_neg hc, List.head?_drop, if_neg hd, if_neg hq, if_neg hb,
      if_neg ho]
  | case7 i h =>
    have hnil : cs.drop i = [] := List.drop_eq_nil_of_le (Nat.le_of_not_lt h)
    refine ⟨cs.length, ?_, Nat.min_le_right _ _, Nat.le_refl _, ?_⟩ <;> rw [hnil, splitHoles.eq_1]
    · rfl
    · exact List.drop_length

end Holes

/-! ## The loop -/

section Loop

variable {cs : List Char}

theorem opener?_eq (cs : List Char) :
    opener? cs = (interpolationBody? cs).map fun r => (cs.length - r.2.length, r.1) := by
  unfold opener? interpolationBody?
  split <;> simp <;> omega

/-- The body of an interpolated string stands after a quote. -/
theorem interpolationBody?_suffix {cs body : List Char} {verbatim : Bool}
    (h : interpolationBody? cs = some (verbatim, body)) : '"' :: body <:+ cs := by
  obtain ⟨o, rfl⟩ := interpolationBody?_eq_some h
  cases o with
  | dollar => exact ⟨['$'], rfl⟩
  | dollarAt => exact ⟨['$', '@'], rfl⟩
  | atDollar => exact ⟨['@', '$'], rfl⟩

/-- A comment or literal starts at `i` and is copied; the loop goes on at `stop`. -/
def Copies (cs : List Char) (i : Nat) (afterAt : Bool) (stop : Nat) : Prop :=
  ∃ x rest, cs.drop i = x ++ rest ∧ Stops cs (i + 1) stop rest ∧
    expandFrom afterAt (cs.drop i) = x ++ expandFrom false rest ∧
    FlagsAt cs stop false

theorem copies_line {i : Nat} (h : i < cs.length) (hc : (cs[i] == '/' && cs[i + 1]? == some '/') = true)
    (afterAt : Bool) : ∃ stop, lineEnd cs i = .ok stop ∧ Copies cs i afterAt stop := by
  obtain ⟨stop, hend, hstop⟩ := stops_lineEnd cs (Nat.le_of_lt h)
  have hslash : cs[i] = '/' := beq_iff_eq.1 (Bool.and_eq_true_iff.1 hc).1
  have hrest : (cs.drop i).dropWhile (· != '\n') = (cs.drop (i + 1)).dropWhile (· != '\n') := by
    rw [List.drop_eq_getElem_cons h, List.dropWhile_cons, if_pos (by rw [hslash]; rfl)]
  rw [hrest] at hstop
  refine ⟨stop, hend, cs[i] :: (cs.drop (i + 1)).takeWhile (· != '\n'), _, ?_, ⟨?_, hstop.stop_le, hstop.drop_stop⟩,
    ?_, ?_⟩
  · rw [List.drop_eq_getElem_cons h, List.cons_append, List.takeWhile_append_dropWhile]
  · have hlength := congrArg List.length hstop.drop_stop
    have hle := (List.dropWhile_suffix (· != '\n') (l := cs.drop (i + 1))).length_le
    have := hstop.stop_le
    rw [List.length_drop] at hlength hle
    omega
  · rw [List.drop_eq_getElem_cons h, expandFrom.eq_2, List.head?_drop, if_pos hc]
  · -- a comment stops at a line end or where the text ends
    intro hnext
    rw [← List.head?_drop, hstop.drop_stop] at hnext
    have hnot := List.head?_dropWhile_not (· != '\n') (cs.drop (i + 1))
    rw [hnext] at hnot
    exact absurd hnot (by decide)

theorem copies_comment {i : Nat} (h : i < cs.length) (hc : (cs[i] == '/' && cs[i + 1]? == some '*') = true)
    (afterAt : Bool) : ∃ stop, commentEnd cs i = .ok stop ∧ Copies cs i afterAt stop := by
  obtain ⟨hslash, hstar⟩ := Bool.and_eq_true_iff.1 hc
  obtain ⟨h', hstar⟩ := List.getElem?_eq_some_iff.1 (beq_iff_eq.1 hstar)
  obtain ⟨stop, hend, hstop⟩ := stops_commentEnd cs h'
  have hdrop : cs.drop i = '/' :: '*' :: cs.drop (i + 2) := by
    rw [List.drop_eq_getElem_cons h, List.drop_eq_getElem_cons h', beq_iff_eq.1 hslash, hstar]
  have hsuffix := splitComment_suffix (cs.drop (i + 2))
  refine ⟨stop, hend, '/' :: '*' :: (splitComment (cs.drop (i + 2))).1, _, ?_,
    ⟨Nat.le_of_succ_le hstop.le_stop, hstop.stop_le, hstop.drop_stop⟩, ?_, ?_⟩
  · rw [hdrop, List.cons_append, List.cons_append, splitComment_append]
  · rw [hdrop, expandFrom.eq_2, if_neg (by simp), if_pos (by simp)]
    rfl
  · exact flagsAt_of_suffix (by decide) (hsuffix.imp_right fun hs => hs.trans (List.drop_suffix _ _))
      hstop.drop_stop

theorem copies_quoted {i : Nat} (h : i < cs.length) (hc : (cs[i] == '"' || cs[i] == '\'') = true) {afterAt : Bool}
    (hat : FlagsAt cs i afterAt) : Copies cs i afterAt (quotedEnd cs i cs[i]) := by
  obtain ⟨hstop, hnext⟩ := stops_quotedEnd h hc hat
  have hslash : (cs[i] == '/') = false := by
    rcases Bool.or_eq_true_iff.1 hc with hq | hq <;> rw [beq_iff_eq.1 hq] <;> rfl
  refine ⟨cs[i] :: (splitLiteral cs[i] (cs[i] == '"' && afterAt) (cs.drop (i + 1))).1, _, ?_, hstop, ?_, hnext⟩
  · rw [List.drop_eq_getElem_cons h, List.cons_append, splitLiteral_append]
  · rw [List.drop_eq_getElem_cons h, expandFrom.eq_2, if_neg (by simp [hslash]), if_neg (by simp [hslash]), if_pos hc]

/-- A comment or literal starts here and is copied, or none does. -/
theorem copiedEnd_eq {i : Nat} (h : i < cs.length) {afterAt : Bool}
    (hat : FlagsAt cs i afterAt) :
    (∃ stop, copiedEnd cs i cs[i] = .ok (some stop) ∧ Copies cs i afterAt stop) ∨
    copiedEnd cs i cs[i] = .ok none ∧ expandFrom afterAt (cs.drop i) =
      match interpolationBody? (cs.drop i) with
      | some (verbatim, body) => ' ' :: (splitHoles verbatim body).1.flatMap
          (fun hole => '(' :: expand hole ++ [')', ' ']) ++ expandFrom false (splitHoles verbatim body).2
      | none => cs[i] :: expandFrom (cs[i] == '@') (cs.drop (i + 1)) := by
  unfold copiedEnd
  by_cases hline : (cs[i] == '/' && cs[i + 1]? == some '/') = true
  · obtain ⟨stop, hend, hcopies⟩ := copies_line h hline afterAt
    rw [if_pos hline, hend]
    exact .inl ⟨stop, rfl, hcopies⟩
  · rw [if_neg hline]
    by_cases hblock : (cs[i] == '/' && cs[i + 1]? == some '*') = true
    · obtain ⟨stop, hend, hcopies⟩ := copies_comment h hblock afterAt
      rw [if_pos hblock, hend]
      exact .inl ⟨stop, rfl, hcopies⟩
    · rw [if_neg hblock]
      by_cases hquote : (cs[i] == '"' || cs[i] == '\'') = true
      · rw [if_pos hquote]
        exact .inl ⟨_, rfl, copies_quoted h hquote hat⟩
      · rw [if_neg hquote]
        refine .inr ⟨rfl, ?_⟩
        split
        · next verbatim body hopen =>
          rw [List.drop_eq_getElem_cons h] at hopen ⊢
          exact expandFrom_interpolation afterAt hopen rfl
        · next hopen =>
          rw [List.drop_eq_getElem_cons h] at hopen ⊢
          rw [expandFrom.eq_2, List.head?_drop, if_neg hline, if_neg hblock, if_neg hquote]
          split
          · next hsome => exact absurd (hopen.symm.trans hsome) (by simp)
          · rfl

section Nested

variable {nested : (hole : List Char) → hole.length < cs.length → Except Fault (List Char)}
variable (hnested : ∀ hole h, nested hole h = .ok (expand hole))

include hnested

/-- An interpolated string that opens at `i` is replaced by its holes, and the loop goes on after its quote. -/
theorem expandHoles_opener {i : Nat} {verbatim : Bool} {body : List Char}
    (hopen : interpolationBody? (cs.drop i) = some (verbatim, body)) :
    ∃ stop, expandHoles cs nested verbatim (i + ((cs.drop i).length - body.length)) =
        .ok ((splitHoles verbatim body).1.flatMap (fun hole => '(' :: expand hole ++ [')', ' ']), stop) ∧
      Stops cs (i + 1) stop (splitHoles verbatim body).2 ∧ FlagsAt cs stop false := by
  have hquote : '"' :: body <:+ cs.drop i := interpolationBody?_suffix hopen
  have hbody : body <:+ cs.drop i := (List.suffix_cons '"' body).trans hquote
  have hdrop : cs.drop (i + ((cs.drop i).length - body.length)) = body := by
    rw [← List.drop_drop, ← List.suffix_iff_eq_drop.1 hbody]
  obtain ⟨stop, hholes, hstop⟩ := expandHoles_eq hnested verbatim (i + ((cs.drop i).length - body.length))
  rw [hdrop] at hholes hstop
  refine ⟨stop, hholes, ⟨?_, hstop.stop_le, hstop.drop_stop⟩, ?_⟩
  · have hlength := hquote.length_le
    have hle := hstop.le_stop
    rw [List.length_cons] at hlength
    rw [List.length_drop] at hlength hle
    omega
  · have hsuffix := (splitHoles_suffix verbatim body).imp_right fun hs =>
      hs.trans (hbody.trans (List.drop_suffix i cs))
    exact flagsAt_of_suffix (by decide) hsuffix hstop.drop_stop

theorem expandLoop_eq (i : Nat) {afterAt : Bool} (hat : FlagsAt cs i afterAt) :
    expandLoop cs nested i = .ok (expandFrom afterAt (cs.drop i)) := by
  fun_induction expandLoop cs nested i generalizing afterAt with
  | case1 i h ihstop ihnext =>
    rcases copiedEnd_eq h hat with ⟨stop, hend, x, rest, hx, hstop, hexpand, hnext⟩ | ⟨hend, hexpand⟩
    · have hlt : i < stop := hstop.le_stop
      have hpiece : piece cs i stop = .ok x :=
        Stops.piece_eq ⟨Nat.le_of_lt hlt, hstop.stop_le, hstop.drop_stop⟩ hx
      rw [hend, bind_ok]
      simp only [hpiece, bind_ok]
      rw [if_pos hlt, ihstop stop hlt hnext, bind_ok, hstop.drop_stop, hexpand]
      rfl
    · rw [hend, bind_ok, hexpand]
      simp only [piece_tail (Nat.le_of_lt h), bind_ok, opener?_eq]
      cases hopen : interpolationBody? (cs.drop i) with
      | none =>
        simp only [Option.map_none]
        rw [ihnext (flagsAt_succ h)]
        rfl
      | some r =>
        obtain ⟨stop, hholes, hstop, hnext⟩ := expandHoles_opener hnested hopen
        have hlt : i < stop := hstop.le_stop
        simp only [Option.map_some]
        rw [hholes, bind_ok, if_pos hlt, ihstop stop hlt hnext, hstop.drop_stop]
        rfl
  | case2 i h =>
    rw [List.drop_eq_nil_of_le (Nat.le_of_not_lt h), expandFrom.eq_1]

end Nested

theorem expandText_eq (cs : List Char) : expandText cs = .ok (expand cs) := by
  fun_induction expandText cs with
  | case1 cs h ih =>
    rw [expand, if_pos h]
    exact expandLoop_eq (fun hole hlt => ih hole hlt) 0 fun _ => rfl
  | case2 cs h => rw [expand, if_neg h]

end Loop

end ByPosition

end TypeDoctrine.Source
