import TypeDoctrine.Template

/-!
# Reading templates

A template reads as segments, whatever text it is (`read`), and rendering it fills in their arguments
(`render_eq`): so the places of a template are fixed before any argument is known.

Writing segments and rendering the template gives the texts and the arguments back unchanged
(`render_writtenWith`). Braces of a text are doubled, so runs of them pair off from the left and none of them meets
the brace of a place; arguments are never read again, whatever braces they hold. Which texts are written by segments
can be decided (`isWritten`).
-/

namespace TypeDoctrine.Template

open TypeDoctrine.Text (digits ofDigits forall_mem_digits exists_digits_eq ofDigits_digits ofDigits_append)

/-- A piece of a template. -/
inductive Segment where
  /-- Text that stands for itself. -/
  | literal (text : String)
  /-- The place of the argument at an index. -/
  | argument (index : Nat)
deriving DecidableEq, Repr

/-- A character of literal text, braces doubled. -/
def quoteChar (c : Char) : List Char :=
  if c == '{' || c == '}' then [c, c] else [c]

/-- A segment as it is written in a template. -/
def Segment.write : Segment → List Char
  | .literal text => text.toList.flatMap quoteChar
  | .argument index => '{' :: digits index ++ ['}']

/-- The template that segments write. -/
def write (segments : List Segment) : String :=
  String.ofList (segments.flatMap Segment.write)

namespace Segment

/-- What a segment stands for: its text, or the argument at its index, or nothing beyond the last argument. -/
def fill (args : List String) : Segment → String
  | .literal text => text
  | .argument index => (args[index]?).getD ""

/-- A segment as it is written with some zeros before its index. -/
def writeWith (zeros : Nat) : Segment → List Char
  | .literal text => text.toList.flatMap quoteChar
  | .argument index => '{' :: (List.replicate zeros '0' ++ digits index ++ ['}'])

/-- The index of a place. -/
def index? : Segment → Option Nat
  | .literal _ => none
  | .argument index => some index

/-- A segment with its text cut into single characters. -/
def split : Segment → List Segment
  | .literal text => text.toList.map fun c => .literal (String.singleton c)
  | .argument index => [.argument index]

theorem writeWith_zero (s : Segment) : s.writeWith 0 = s.write := by
  cases s with
  | literal text => rfl
  | argument index => simp [writeWith, write]

theorem fill_split (args : List String) (s : Segment) :
    s.split.flatMap (fun piece => (piece.fill args).toList) = (s.fill args).toList := by
  cases s with
  | literal text =>
    simp only [split, fill, List.flatMap_map]
    induction text.toList with
    | nil => rfl
    | cons c cs ih =>
      rw [List.flatMap_cons, ih]
      simp
  | argument index => simp [split]

end Segment

/-! ## Reading -/

/-- The segments of any text, texts cut into single characters. -/
def read : List Char → List Segment
  | [] => []
  | c :: rest =>
    if (c == '{' || c == '}') && rest.head? == some c then .literal (String.singleton c) :: read (rest.drop 1)
    else if c == '{' then
      let index := rest.takeWhile (· != '}')
      if !index.isEmpty && index.all Char.isDigit && index.length < rest.length then
        .argument (ofDigits 10 index) :: read (rest.drop (index.length + 1))
      else .literal (String.singleton c) :: read rest
    else .literal (String.singleton c) :: read rest
termination_by cs => cs.length
decreasing_by all_goals simp only [List.length_drop, List.length_cons]; omega

/-- The indices of the places of a template. -/
def places (template : String) : List Nat :=
  (read template.toList).filterMap Segment.index?

/-- Rendering fills in the segments that a template reads as. -/
theorem renderChars_eq (args : List String) (cs : List Char) :
    renderChars args cs = (read cs).flatMap fun s => (s.fill args).toList := by
  fun_induction read cs with
  | case1 => simp [renderChars]
  | case2 c rest h ih =>
    rw [renderChars, if_pos h, ih]
    simp [Segment.fill]
  | case3 c rest h hc index hi ih =>
    rw [renderChars, if_neg h, if_pos hc, if_pos hi, ih]
    rfl
  | case4 c rest h hc index hi ih =>
    rw [renderChars, if_neg h, if_pos hc, if_neg hi, ih]
    simp [Segment.fill]
  | case5 c rest h hc ih =>
    rw [renderChars, if_neg h, if_neg hc, ih]
    simp [Segment.fill]

theorem render_eq (template : String) (args : List String) :
    render template args = String.ofList ((read template.toList).flatMap fun s => (s.fill args).toList) := by
  rw [render, renderChars_eq]

/-! ## Reading what was written -/

/-- A doubled brace is read as one, and any other character as itself. -/
theorem read_quoteChar (c : Char) (rest : List Char) :
    read (quoteChar c ++ rest) = .literal (String.singleton c) :: read rest := by
  unfold quoteChar
  split
  · next hc =>
    rw [List.cons_append, read, if_pos]
    · rfl
    · rw [hc]
      simp
  · next hc =>
    simp only [Bool.or_eq_true, not_or, Bool.not_eq_true] at hc
    rw [List.cons_append, read, if_neg (by simp [hc.1, hc.2]), if_neg (by simp [hc.1])]
    rfl

theorem read_literal (cs rest : List Char) :
    read (cs.flatMap quoteChar ++ rest) = cs.map (fun c => .literal (String.singleton c)) ++ read rest := by
  induction cs with
  | nil => rfl
  | cons c cs ih => rw [List.flatMap_cons, List.append_assoc, read_quoteChar, ih, List.map_cons, List.cons_append]

/-- The first brace after the digits of a place closes it. -/
theorem read_place {ds : List Char} (hne : ds ≠ []) (hds : ∀ c ∈ ds, c.isDigit = true) (rest : List Char) :
    read ('{' :: (ds ++ '}' :: rest)) = .argument (ofDigits 10 ds) :: read rest := by
  have hbrace : ∀ c ∈ ds, c != '}' := by
    intro c hc
    rw [bne_iff_ne]
    rintro rfl
    exact absurd (hds _ hc) (by decide)
  have htake : (ds ++ '}' :: rest).takeWhile (· != '}') = ds := by
    rw [List.takeWhile_append_of_pos hbrace]
    simp
  have hhead : ((ds ++ '}' :: rest).head? == some '{') = false := by
    obtain ⟨d, tail, rfl⟩ := List.exists_cons_of_ne_nil hne
    have hd : d ≠ '{' := by
      rintro rfl
      exact absurd (hds _ List.mem_cons_self) (by decide)
    simp [hd]
  have hall : ds.all Char.isDigit = true := List.all_eq_true.2 hds
  rw [read, if_neg (by rw [hhead]; decide), if_pos (by decide)]
  simp only [htake]
  rw [if_pos]
  · rw [← List.drop_drop, List.drop_left]
    rfl
  · simp [hall, List.isEmpty_eq_false_iff.2 hne]

theorem ofDigits_zeros (zeros index : Nat) : ofDigits 10 (List.replicate zeros '0' ++ digits index) = index := by
  have hzero : ofDigits 10 (List.replicate zeros '0') = 0 := by
    induction zeros with
    | zero => rfl
    | succ zeros ih =>
      rw [List.replicate_succ', ofDigits_append, ih]
      rfl
  rw [ofDigits_append, hzero]
  exact ofDigits_digits index

theorem read_writeWith (zeros : Nat) (s : Segment) (rest : List Char) :
    read (s.writeWith zeros ++ rest) = s.split ++ read rest := by
  cases s with
  | literal text => exact read_literal text.toList rest
  | argument index =>
    have hne : List.replicate zeros '0' ++ digits index ≠ [] := by
      obtain ⟨d, ds, hd, -⟩ := exists_digits_eq index
      simp [hd]
    have hdigit : ∀ c ∈ List.replicate zeros '0' ++ digits index, c.isDigit = true := by
      intro c hc
      rcases List.mem_append.1 hc with hc | hc
      · rw [List.eq_of_mem_replicate hc]
        decide
      · exact forall_mem_digits index c hc
    have hplace := read_place hne hdigit rest
    rw [ofDigits_zeros] at hplace
    simpa [Segment.writeWith, Segment.split] using hplace

/-- The template that segments write, each with its number of zeros before the index. -/
def writtenWith (segments : List (Nat × Segment)) : String :=
  String.ofList (segments.flatMap fun s => s.2.writeWith s.1)

theorem read_writtenWith (segments : List (Nat × Segment)) :
    read (writtenWith segments).toList = segments.flatMap fun s => s.2.split := by
  rw [writtenWith, String.toList_ofList]
  induction segments with
  | nil => simp [read]
  | cons s segments ih => rw [List.flatMap_cons, read_writeWith, ih, List.flatMap_cons]

theorem read_write (segments : List Segment) :
    read (write segments).toList = segments.flatMap Segment.split := by
  have hzero : write segments = writtenWith (segments.map fun s => (0, s)) := by
    simp only [write, writtenWith, List.flatMap_map, Segment.writeWith_zero]
  rw [hzero, read_writtenWith, List.flatMap_map]

theorem fill_flatMap_split {α : Type} (segment : α → Segment) (l : List α) (args : List String) :
    (l.flatMap fun x => (segment x).split).flatMap (fun s => (s.fill args).toList) =
      (String.join (l.map fun x => (segment x).fill args)).toList := by
  rw [String.toList_join, List.flatMap_map, List.flatMap_assoc]
  congr 1
  funext x
  exact (segment x).fill_split args

theorem render_write (segments : List Segment) (args : List String) :
    render (write segments) args = String.join (segments.map fun s => s.fill args) := by
  rw [render_eq, read_write, ← String.toList_inj, String.toList_ofList]
  exact fill_flatMap_split id segments args

/-- Rendering inverts writing: texts come back unchanged, and each index, with any number of zeros before it, as the
argument there, or as nothing if there is none. -/
theorem render_writtenWith (segments : List (Nat × Segment)) (args : List String) :
    render (writtenWith segments) args = String.join (segments.map fun s => s.2.fill args) := by
  rw [render_eq, read_writtenWith, ← String.toList_inj, String.toList_ofList]
  exact fill_flatMap_split Prod.snd segments args

/-- A brace of text stands next to a place, the argument holds what looks like a place, and the last index is beyond
any word. -/
example :
    render (writtenWith [(0, .literal "\x7B"), (2, .argument 0), (0, .argument (2 ^ 64))]) ["\x7B0\x7D"] =
      "\x7B\x7B0\x7D" := by
  decide +kernel

/-! ## Templates that segments write -/

/-- Whether a text is a template that segments write: no brace stands alone, and every place has an index without
zeros before it. -/
def isWritten : List Char → Bool
  | [] => true
  | c :: rest =>
    if (c == '{' || c == '}') && rest.head? == some c then isWritten (rest.drop 1)
    else if c == '{' then
      let index := rest.takeWhile (· != '}')
      index == digits (ofDigits 10 index) && index.length < rest.length && isWritten (rest.drop (index.length + 1))
    else c != '}' && isWritten rest
termination_by cs => cs.length
decreasing_by all_goals simp only [List.length_drop, List.length_cons]; omega

/-- A text with an end for its first place is the index, the end and the rest. -/
theorem eq_takeWhile_append {rest : List Char}
    (h : (rest.takeWhile (· != '}')).length < rest.length) :
    rest = rest.takeWhile (· != '}') ++ '}' :: rest.drop ((rest.takeWhile (· != '}')).length + 1) := by
  have hsplit := List.takeWhile_append_dropWhile (p := (· != '}')) (l := rest)
  cases hd : rest.dropWhile (· != '}') with
  | nil =>
    rw [hd, List.append_nil] at hsplit
    rw [hsplit] at h
    exact absurd h (Nat.lt_irrefl _)
  | cons d more =>
    have hclose : d = '}' := by
      have := List.head?_dropWhile_not (· != '}') rest
      rw [hd] at this
      simpa using this
    rw [hd, hclose] at hsplit
    have hdrop := congrArg (List.drop ((rest.takeWhile (· != '}')).length + 1)) hsplit
    rw [← List.drop_drop, List.drop_left] at hdrop
    rw [← hdrop]
    exact hsplit.symm

theorem exists_write_of_isWritten {cs : List Char} (h : isWritten cs = true) :
    ∃ segments, String.ofList cs = write segments := by
  suffices h' : ∃ segments : List Segment, cs = segments.flatMap Segment.write by
    obtain ⟨segments, rfl⟩ := h'
    exact ⟨segments, rfl⟩
  fun_induction isWritten cs with
  | case1 => exact ⟨[], rfl⟩
  | case2 c rest hc ih =>
    obtain ⟨segments, hs⟩ := ih h
    simp only [Bool.and_eq_true, beq_iff_eq] at hc
    obtain ⟨more, rfl⟩ := List.head?_eq_some_iff.1 hc.2
    refine ⟨.literal (String.singleton c) :: segments, ?_⟩
    rw [List.drop_succ_cons, List.drop_zero] at hs
    simp [Segment.write, quoteChar, hc.1, ← hs]
  | case3 c rest hc hopen index ih =>
    simp only [Bool.and_eq_true, beq_iff_eq, decide_eq_true_eq] at h
    obtain ⟨⟨hdigits, hlen⟩, hrest⟩ := h
    obtain ⟨segments, hs⟩ := ih hrest
    refine ⟨.argument (ofDigits 10 index) :: segments, ?_⟩
    have hc' : c = '{' := beq_iff_eq.1 hopen
    calc c :: rest = '{' :: (index ++ '}' :: rest.drop (index.length + 1)) := by
          rw [hc', ← eq_takeWhile_append hlen]
      _ = _ := by simp [Segment.write, ← hdigits, ← hs]
  | case4 c rest hc hopen ih =>
    rw [Bool.and_eq_true, bne_iff_ne] at h
    obtain ⟨segments, hs⟩ := ih h.2
    refine ⟨.literal (String.singleton c) :: segments, ?_⟩
    have hclose : (c == '}') = false := beq_eq_false_iff_ne.2 h.1
    simp [Segment.write, quoteChar, hopen, hclose, ← hs]

end TypeDoctrine.Template
