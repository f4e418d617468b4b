import TypeDoctrine.Source.Identifiers

/-!
# Where a string ends

Two scanners look for the quote that closes a string. The plain scan skips whatever follows a backslash; the token
scanner checks escapes and line joins and may give up. Where the token scanner finds an end, the plain scan finds the
same one (`splitLiteral_of_afterQuoted?`): past the character that a backslash guards, no escape takes a quote or a
backslash along.
-/

namespace TypeDoctrine.Source

open TypeDoctrine.Text (digitValue?)

/-! ## The plain scan -/

theorem splitLiteral_quote {quote : Char} (hq : quote ≠ '\\') (rest : List Char) :
    (splitLiteral quote false (quote :: rest)).2 = rest := by
  cases rest with
  | nil => rfl
  | cons d rest => simp [splitLiteral, hq]

theorem splitLiteral_char {quote c : Char} (hq : c ≠ quote) (hb : c ≠ '\\') (rest : List Char) :
    (splitLiteral quote false (c :: rest)).2 = (splitLiteral quote false rest).2 := by
  cases rest with
  | nil => rfl
  | cons d rest => simp [splitLiteral, hq, hb]

theorem splitLiteral_escape (quote c : Char) (rest : List Char) :
    (splitLiteral quote false ('\\' :: c :: rest)).2 = (splitLiteral quote false rest).2 := by
  simp [splitLiteral]

theorem splitLiteral_append_chars {quote : Char} {cs : List Char} (h : ∀ c ∈ cs, c ≠ quote ∧ c ≠ '\\')
    (rest : List Char) : (splitLiteral quote false (cs ++ rest)).2 = (splitLiteral quote false rest).2 := by
  induction cs with
  | nil => rfl
  | cons c cs ih =>
    obtain ⟨⟨hq, hb⟩, hcs⟩ := List.forall_mem_cons.1 h
    rw [List.cons_append, splitLiteral_char hq hb, ih hcs]

/-! ## The token scanner -/

/-- `rest` is reached over text that neither ends a string nor guards what follows. -/
def Passes (cs rest : List Char) : Prop :=
  ∃ pre, cs = pre ++ rest ∧ ∀ c ∈ pre, c ≠ '"' ∧ c ≠ '\\'

theorem Passes.refl (cs : List Char) : Passes cs cs :=
  ⟨[], rfl, nofun⟩

theorem Passes.cons {c : Char} {cs rest : List Char} (hc : c ≠ '"' ∧ c ≠ '\\') (h : Passes cs rest) :
    Passes (c :: cs) rest := by
  obtain ⟨pre, rfl, hpre⟩ := h
  exact ⟨c :: pre, rfl, List.forall_mem_cons.2 ⟨hc, hpre⟩⟩

theorem Passes.splitLiteral_eq {cs rest : List Char} (h : Passes cs rest) :
    (splitLiteral '"' false cs).2 = (splitLiteral '"' false rest).2 := by
  obtain ⟨pre, rfl, hpre⟩ := h
  exact splitLiteral_append_chars hpre rest

theorem ne_of_digitValue? {c : Char} (h : (digitValue? c).isSome = true) : c ≠ '"' ∧ c ≠ '\\' := by
  constructor
  · rintro rfl
    exact absurd h (by decide)
  · rintro rfl
    exact absurd h (by decide)

theorem passes_codePoint? {digits value n : Nat} {cs rest : List Char}
    (h : codePoint? digits value cs = some (n, rest)) : Passes cs rest := by
  fun_induction codePoint? digits value cs with
  | case1 => simp at h
  | case2 => simp at h
  | case3 digits value c cs d hd _ ih => exact (ih h).cons (ne_of_digitValue? (by simp [hd]))
  | case4 => simp at h
  | case5 digits value c cs _ _ hc ih =>
    obtain rfl : c = '_' := beq_iff_eq.1 hc
    exact (ih h).cons (by decide)
  | case6 digits value c cs _ _ _ hc =>
    obtain ⟨hc, -⟩ := Bool.and_eq_true_iff.1 hc
    obtain rfl : c = '}' := beq_iff_eq.1 hc
    simp only [Option.some.injEq, Prod.mk.injEq] at h
    obtain ⟨-, rfl⟩ := h
    exact (Passes.refl _).cons (by decide)
  | case7 => simp at h

theorem Content.ne_of_admitsHex {content : Content} {a b : Char} (h : content.admitsHex a b = true) :
    (a ≠ '"' ∧ a ≠ '\\') ∧ b ≠ '"' ∧ b ≠ '\\' := by
  have hquote : digitValue? '"' = none := by decide
  have hslash : digitValue? '\\' = none := by decide
  refine ⟨⟨?_, ?_⟩, ?_, ?_⟩ <;> rintro rfl <;> cases content <;>
    simp_all [Content.admitsHex, Char.le_def]

/-- An escape takes one character and then nothing that ends a string. -/
theorem passes_afterEscape? {content : Content} {cs rest : List Char} (h : afterEscape? content cs = some rest) :
    ∃ c tail, cs = c :: tail ∧ Passes tail rest := by
  unfold afterEscape? at h
  split at h
  · next a b tail =>
    split at h
    · next hx =>
      obtain rfl := Option.some.inj h
      obtain ⟨ha, hb⟩ := Content.ne_of_admitsHex hx
      exact ⟨_, _, rfl, ((Passes.refl _).cons hb).cons ha⟩
    · simp at h
  · next tail =>
    have hpoint : ∃ n, codePoint? 0 0 tail = some (n, rest) := by
      split at h
      · next hc =>
        obtain rfl := Option.some.inj h
        exact ⟨_, hc⟩
      · next hc =>
        split at h
        · simp at h
        · obtain rfl := Option.some.inj h
          exact ⟨_, hc⟩
      · simp at h
    obtain ⟨n, hn⟩ := hpoint
    exact ⟨_, _, rfl, (passes_codePoint? hn).cons (by decide)⟩
  · split at h
    · simp at h
    · obtain rfl := Option.some.inj h
      exact ⟨_, _, rfl, .refl _⟩
  · split at h
    · obtain rfl := Option.some.inj h
      exact ⟨_, _, rfl, .refl _⟩
    · simp at h
  · simp at h

theorem passes_afterLineJoin? {cs rest : List Char} (h : afterLineJoin? cs = some rest) : Passes cs rest := by
  fun_induction afterLineJoin? cs with
  | case1 tail ih => exact ((ih h).cons (by decide)).cons (by decide)
  | case2 => simp at h
  | case3 => simp at h
  | case4 c tail _ _ hc ih =>
    refine (ih h).cons ?_
    constructor
    · rintro rfl
      exact absurd hc (by decide)
    · rintro rfl
      exact absurd hc (by decide)
  | case5 =>
    obtain rfl := Option.some.inj h
    exact .refl _

/-- A join takes the line end it starts with. -/
theorem passes_tail_afterLineJoin? {c : Char} {tail rest : List Char} (h : afterLineJoin? (c :: tail) = some rest)
    (hc : c = '\n' ∨ c = '\r') : Passes tail rest := by
  rcases hc with rfl | rfl
  · have hjoin : afterLineJoin? tail = some rest := by simpa [afterLineJoin?] using h
    exact passes_afterLineJoin? hjoin
  · unfold afterLineJoin? at h
    split at h
    · next after he =>
      obtain rfl := (List.cons.inj he).2
      exact (passes_afterLineJoin? h).cons (by decide)
    · simp at h
    · next he =>
      obtain ⟨rfl, -⟩ := List.cons.inj he
      simp at h

/-- Where the token scanner finds the end of a string, the plain scan finds it too. -/
theorem splitLiteral_of_afterQuoted? {content : Content} {cs rest : List Char}
    (h : afterQuoted? content cs = some rest) : (splitLiteral '"' false cs).2 = rest := by
  fun_induction afterQuoted? content cs with
  | case1 => simp at h
  | case2 c tail hc =>
    obtain rfl : c = '"' := beq_iff_eq.1 hc
    obtain rfl := Option.some.inj h
    exact splitLiteral_quote (by decide) _
  | case3 c tail hc hr hn ih =>
    obtain rfl : c = '\r' := beq_iff_eq.1 hr
    rw [splitLiteral_char (by decide) (by decide)]
    cases tail with
    | nil => exact ih h
    | cons d tail =>
      obtain rfl : d = '\n' := Option.some.inj (beq_iff_eq.1 hn)
      rw [splitLiteral_char (by decide) (by decide)]
      exact ih h
  | case4 => simp at h
  | case5 c tail hc hr hb hn joined hj ih =>
    obtain rfl : c = '\\' := beq_iff_eq.1 hb
    cases tail with
    | nil => simp at hn
    | cons d tail =>
      have hpass := passes_tail_afterLineJoin? hj (by simpa using hn)
      rw [splitLiteral_escape, hpass.splitLiteral_eq]
      exact ih h
  | case6 => simp at h
  | case7 c tail hc hr hb hn escaped he ih =>
    obtain rfl : c = '\\' := beq_iff_eq.1 hb
    obtain ⟨d, after, rfl, hpass⟩ := passes_afterEscape? he
    rw [splitLiteral_escape, hpass.splitLiteral_eq]
    exact ih h
  | case8 => simp at h
  | case9 c tail hc hr hb _ ih =>
    rw [splitLiteral_char (by simpa using hc) (by simpa using hb)]
    exact ih h
  | case10 => simp at h

end TypeDoctrine.Source
