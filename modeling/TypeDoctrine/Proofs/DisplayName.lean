import TypeDoctrine.Proofs.Classification
import TypeDoctrine.Proofs.Trimming

/-!
# Display names with an argument list

What is read of a display name that has an angle bracket. The name is what stands before the first one, and
of all that follows only the commas outside inner angle brackets count (`parse_bracketed`): nobody looks where
the argument list is closed, or whether it is. So a name is matched exactly (`markers_of_bracketed`), but a type
nested in a generic one has the capabilities of the generic one (`nested_visitor_isResult`).
-/

namespace TypeDoctrine

open Text (isBlank dropEndWhile trim trimEnd)

namespace GenericName

/-! ## Commas -/

theorem outerCommas_of_notMem (depth : Nat) {cs : List Char} (h : ',' ∉ cs) : outerCommas depth cs = 0 := by
  induction cs generalizing depth with
  | nil => rfl
  | cons c cs ih =>
    obtain ⟨hc, hcs⟩ := not_or.1 (mt List.mem_cons.2 h)
    have hc : (c == ',') = false := beq_eq_false_iff_ne.2 (Ne.symm hc)
    rw [outerCommas, ih _ hcs, ih _ hcs, ih _ hcs, hc]
    simp

theorem outerCommas_append_of_notMem (depth : Nat) (cs : List Char) {after : List Char} (h : ',' ∉ after) :
    outerCommas depth (cs ++ after) = outerCommas depth cs := by
  induction cs generalizing depth with
  | nil => exact outerCommas_of_notMem depth h
  | cons c cs ih =>
    rw [List.cons_append, outerCommas, outerCommas, ih, ih, ih]

theorem outerCommas_dropEndWhile (depth : Nat) {p : Char → Bool} (hp : p ',' = false) (cs : List Char) :
    outerCommas depth (dropEndWhile p cs) = outerCommas depth cs := by
  obtain ⟨after, hafter, he⟩ := Text.exists_dropEndWhile_eq p cs
  have hcomma : ',' ∉ after := fun hc => absurd (hafter _ hc) (by simp [hp])
  have happend := outerCommas_append_of_notMem depth (dropEndWhile p cs) hcomma
  rw [← he] at happend
  exact happend.symm

/-- The closing brackets that are left out before counting would have counted for nothing. -/
theorem argumentCount_eq (cs : List Char) : argumentCount cs = outerCommas 0 cs + 1 := by
  rw [argumentCount, outerCommas_dropEndWhile 0 (by decide)]

/-! ## Global marks -/

/-- What has no `a` is found before an `a` or not at all. -/
theorem isPrefixOf_append_cons {p cs after : List Char} {a : Char} (h : a ∉ p) :
    p.isPrefixOf (cs ++ a :: after) = p.isPrefixOf cs := by
  induction p generalizing cs with
  | nil => rfl
  | cons b p ih =>
    obtain ⟨hb, hp⟩ := not_or.1 (mt List.mem_cons.2 h)
    cases cs with
    | nil =>
      rw [List.nil_append, List.isPrefixOf_cons_cons, beq_eq_false_iff_ne.2 (Ne.symm hb), Bool.false_and]
      rfl
    | cons c cs => rw [List.cons_append, List.isPrefixOf_cons_cons, List.isPrefixOf_cons_cons, ih hp]

theorem dropGlobal_of_isPrefixOf {cs : List Char} (h : globalMark.isPrefixOf cs = true) :
    dropGlobal cs = dropGlobal (cs.drop globalMark.length) := by
  rw [dropGlobal, dif_pos h]

theorem dropGlobal_of_not_isPrefixOf {cs : List Char} (h : globalMark.isPrefixOf cs = false) :
    dropGlobal cs = cs := by
  rw [dropGlobal, dif_neg (by simp [h])]

theorem dropGlobal_append_cons (cs after : List Char) {a : Char} (ha : a ∉ globalMark) :
    dropGlobal (cs ++ a :: after) = dropGlobal cs ++ a :: after := by
  fun_induction dropGlobal cs with
  | case1 cs h ih =>
    have hle := (List.isPrefixOf_iff_prefix.1 h).length_le
    rw [dropGlobal_of_isPrefixOf (by rw [isPrefixOf_append_cons ha, h]), List.drop_append_of_le_length hle, ih]
  | case2 cs h =>
    refine dropGlobal_of_not_isPrefixOf ?_
    rw [isPrefixOf_append_cons ha]
    exact Bool.eq_false_iff.2 h

theorem dropGlobal_suffix (cs : List Char) : dropGlobal cs <:+ cs := by
  fun_induction dropGlobal cs with
  | case1 cs h ih => exact ih.trans (List.drop_suffix _ _)
  | case2 cs h => exact List.suffix_rfl

/-! ## Cutting a name -/

theorem takeWhile_ne_append {cs : List Char} {a : Char} (h : a ∉ cs) (after : List Char) :
    (cs ++ a :: after).takeWhile (· != a) = cs ∧ (cs ++ a :: after).dropWhile (· != a) = a :: after := by
  have hcs : ∀ c ∈ cs, (c != a) = true := fun c hc => bne_iff_ne.2 fun he => h (he ▸ hc)
  rw [List.takeWhile_append_of_pos hcs, List.dropWhile_append_of_pos hcs]
  simp

theorem ofChars_bracketed {cs : List Char} (h : '<' ∉ cs) (after : List Char) :
    ofChars (cs ++ '<' :: after) = { base := String.ofList (trimEnd cs), arity := outerCommas 0 after + 1 } := by
  obtain ⟨htake, hdrop⟩ := takeWhile_ne_append h after
  rw [ofChars, if_pos (by simp), htake, hdrop, List.drop_one, List.tail_cons, argumentCount_eq]

/-- The name in front of an argument list: without blanks around it and global marks before it. -/
def nameIn (before : List Char) : String :=
  String.ofList (trimEnd (dropGlobal (before.dropWhile isBlank)))

/-- A display name with an argument list, from what stands before and after the first angle bracket. -/
def bracketed (before after : List Char) : String :=
  String.ofList (before ++ '<' :: after)

theorem parse_bracketed {before : List Char} (h : '<' ∉ before) (after : List Char) :
    parse (bracketed before after) = { base := nameIn before, arity := outerCommas 0 after + 1 } := by
  have hmem : '<' ∉ dropGlobal (before.dropWhile isBlank) := fun hm =>
    h ((List.dropWhile_suffix isBlank).subset ((dropGlobal_suffix _).subset hm))
  have hcommas : outerCommas 0 (trimEnd after) = outerCommas 0 after := outerCommas_dropEndWhile 0 (by decide) after
  rw [parse, bracketed, String.toList_ofList, Text.trim_append_cons before after (by decide),
    dropGlobal_append_cons _ _ (by decide), ofChars_bracketed hmem, hcommas]
  rfl

/-! ## Where the argument list is closed -/

/-- What follows the bracket that closes an argument list, from the text after the one that opens it. -/
def afterArguments? (depth : Nat) : List Char → Option (List Char)
  | [] => none
  | c :: rest =>
    if c == '<' then afterArguments? (depth + 1) rest
    else if c == '>' then
      if depth == 0 then some rest else afterArguments? (depth - 1) rest
    else afterArguments? depth rest

/-- The argument list that the first angle bracket opens is closed by the last character that is no blank. -/
def closedAtEnd (name : String) : Bool :=
  (afterArguments? 0 ((name.toList.dropWhile (· != '<')).drop 1)).any (·.all isBlank)

theorem afterArguments?_append {depth : Nat} {args : List Char} (h : afterArguments? depth args = some [])
    (tail : List Char) : afterArguments? depth (args ++ tail) = some tail := by
  fun_induction afterArguments? depth args with
  | case1 => simp at h
  | case2 depth c rest hc ih => rw [List.cons_append, afterArguments?, if_pos hc, ih h]
  | case3 depth c rest hc hc' hd =>
    obtain rfl := Option.some.inj h
    rw [List.cons_append, afterArguments?, if_neg hc, if_pos hc', if_pos hd, List.nil_append]
  | case4 depth c rest hc hc' hd ih =>
    rw [List.cons_append, afterArguments?, if_neg hc, if_pos hc', if_neg hd, ih h]
  | case5 depth c rest hc hc' ih => rw [List.cons_append, afterArguments?, if_neg hc, if_neg hc', ih h]

/-- After a closed argument list counting goes on outside brackets, where it started. -/
theorem outerCommas_append {depth : Nat} {args : List Char} (h : afterArguments? depth args = some [])
    (tail : List Char) : outerCommas depth (args ++ tail) = outerCommas depth args + outerCommas 0 tail := by
  fun_induction afterArguments? depth args with
  | case1 => simp at h
  | case2 depth c rest hc ih => rw [List.cons_append, outerCommas, outerCommas, if_pos hc, if_pos hc, ih h]
  | case3 depth c rest hc hc' hd =>
    obtain rfl := Option.some.inj h
    obtain rfl : depth = 0 := beq_iff_eq.1 hd
    simp [outerCommas, hc, hc']
  | case4 depth c rest hc hc' hd ih =>
    rw [List.cons_append, outerCommas, outerCommas, if_neg hc, if_neg hc, if_pos hc', if_pos hc', ih h]
  | case5 depth c rest hc hc' ih =>
    rw [List.cons_append, outerCommas, outerCommas, if_neg hc, if_neg hc, if_neg hc', if_neg hc', ih h]
    split <;> omega

theorem closedAtEnd_bracketed {before args : List Char} (h : '<' ∉ before)
    (hargs : afterArguments? 0 args = some []) (tail : List Char) :
    closedAtEnd (bracketed before (args ++ tail)) = true ↔ ∀ c ∈ tail, isBlank c = true := by
  rw [closedAtEnd, bracketed, String.toList_ofList, (takeWhile_ne_append h _).2, List.drop_one, List.tail_cons,
    afterArguments?_append hargs, Option.any_some, List.all_eq_true]

end GenericName

open GenericName

theorem Registry.capabilitiesOf_of_parse_eq (r : Registry) {i j : String} (h : parse i = parse j) :
    r.capabilitiesOf i = r.capabilitiesOf j := by
  rw [Registry.capabilitiesOf, Registry.capabilitiesOf, h]

/-- An interface with an argument list has the capabilities of the markers with exactly its name and, where they
fix one, the number of its arguments; and what follows a closed argument list takes none of them away, unless it
has commas outside brackets. -/
theorem markers_of_bracketed (r : Registry) {before : List Char} (h : '<' ∉ before) :
    (∀ after c, c ∈ r.capabilitiesOf (bracketed before after) ↔
      ∃ m ∈ r.markers, m.name = nameIn before ∧ (∀ n, m.arity = some n → n = outerCommas 0 after + 1) ∧
        c ∈ m.capabilities) ∧
    ∀ args tail, afterArguments? 0 args = some [] → outerCommas 0 tail = 0 →
      r.capabilitiesOf (bracketed before (args ++ tail)) = r.capabilitiesOf (bracketed before args) ∧
      (closedAtEnd (bracketed before (args ++ tail)) = true ↔ ∀ c ∈ tail, isBlank c = true) := by
  constructor
  · intro after c
    rw [Registry.mem_capabilitiesOf, Registry.Grants, parse_bracketed h]
  · intro args tail hargs htail
    have hparse : parse (bracketed before (args ++ tail)) = parse (bracketed before args) := by
      rw [parse_bracketed h, parse_bracketed h, outerCommas_append hargs, htail, Nat.add_zero]
    exact ⟨r.capabilitiesOf_of_parse_eq hparse, closedAtEnd_bracketed h hargs tail⟩

/-- The nested type is taken for the result it is nested in. -/
theorem markers_of_bracketed_visitor :
    afterArguments? 0 "int>".toList = some [] ∧ outerCommas 0 ".IVisitor".toList = 0 ∧
    Registry.standard.capabilitiesOf "Zentient.Abstractions.Results.IResult<int>.IVisitor" =
      Registry.standard.capabilitiesOf "Zentient.Abstractions.Results.IResult<int>" := by
  have hargs : afterArguments? 0 "int>".toList = some [] := by decide
  have htail : outerCommas 0 ".IVisitor".toList = 0 := by decide
  have hbefore : '<' ∉ "Zentient.Abstractions.Results.IResult".toList := by simp
  have hsame := ((markers_of_bracketed .standard hbefore).2 _ _ hargs htail).1
  refine ⟨hargs, htail, ?_⟩
  simpa [bracketed] using hsame

/-- A name that goes on after its argument list may have a capability. -/
theorem nested_visitor_isResult :
    ¬ ∀ (r : Registry) (name : String), (∀ m ∈ r.markers, '<' ∉ m.name.toList) → '<' ∈ name.toList →
      r.capabilitiesOf name ≠ [] → closedAtEnd name = true := by
  intro h
  have hclosed := h { markers := [{ name := "Acme.IOutcome", arity := some 1, capabilities := [.result] }] }
    "Acme.IOutcome<int>.IVisitor" (by decide +kernel) (by decide +kernel) (by decide +kernel)
  exact absurd hclosed (by decide +kernel)

end TypeDoctrine
