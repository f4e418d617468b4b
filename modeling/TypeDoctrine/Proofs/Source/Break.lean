import TypeDoctrine.Proofs.Source.Snippet

/-!
# Tokens before a break

A blank, a slash and a round bracket end every token of code that stands before them. So code reads the same whatever
comes after the break, and text that starts with a break adds its own tokens to those of the code (`scan?_append`). The
one exception is the error mark, which takes a round bracket, a comment and a bracket as one literal.
-/

namespace TypeDoctrine.Source

open TypeDoctrine.Text (isWordStart isWordPart digitValue?)

theorem isPlain_of_isBare {c : Char} (h : isBare c = true) : isPlain c = true := by
  obtain ⟨hq, ha, hs, hd, hat, -⟩ := (isBare_iff c).1 h
  exact (isPlain_iff c).2 ⟨hs, hq, ha, hd, hat⟩

theorem isWordPart_of_mem_breaks {d : Char} (hd : d ∈ breaks) : isWordPart d = false ∧ isWordStart d = false :=
  forall_mem_breaks (p := fun d => isWordPart d = false ∧ isWordStart d = false) (by decide) hd

theorem isDigit_of_mem_breaks {d : Char} (hd : d ∈ breaks) : d.isDigit = false ∧ digitValue? d = none ∧ d ≠ '_' :=
  forall_mem_breaks (p := fun d => d.isDigit = false ∧ digitValue? d = none ∧ d ≠ '_') (by decide) hd

theorem dropWhile_append_break {p : Char → Bool} {d : Char} (hp : p d = false) (cs rest : List Char) :
    (cs ++ d :: rest).dropWhile p = cs.dropWhile p ++ d :: rest := by
  induction cs with
  | nil => simp [hp]
  | cons c cs ih =>
    rw [List.cons_append, List.dropWhile_cons, List.dropWhile_cons, ih]
    split
    · rfl
    · rfl

theorem takeWhile_append_break {p : Char → Bool} {d : Char} (hp : p d = false) (cs rest : List Char) :
    (cs ++ d :: rest).takeWhile p = cs.takeWhile p := by
  induction cs with
  | nil => simp [hp]
  | cons c cs ih =>
    rw [List.cons_append, List.takeWhile_cons, List.takeWhile_cons, ih]

/-! ## Recognisers -/

/-- A recogniser takes nothing of `rest`, which comes after the text. -/
structure StopsBefore (rest : List Char) (f : List Char → Option (List Char)) (cs : List Char) : Prop where
  append : f (cs ++ rest) = (f cs).map (· ++ rest)
  suffix : ∀ {tail}, f cs = some tail → tail <:+ cs

namespace StopsBefore

variable {f g : List Char → Option (List Char)} {c d : Char} {cs rest : List Char}

theorem refused (h : f cs = none) (hr : f (cs ++ rest) = none) : StopsBefore rest f cs where
  append := by rw [h, hr]; rfl
  suffix ht := by rw [h] at ht; exact absurd ht nofun

theorem ended (h : f cs = some cs) (hr : f (cs ++ rest) = some (cs ++ rest)) : StopsBefore rest f cs where
  append := by rw [h, hr]; rfl
  suffix ht := by
    rw [h] at ht
    obtain rfl := Option.some.inj ht
    exact List.suffix_refl _

theorem congr (hg : StopsBefore rest g cs) (h : f cs = g cs) (hr : f (cs ++ rest) = g (cs ++ rest)) :
    StopsBefore rest f cs where
  append := by rw [hr, hg.append, h]
  suffix ht := hg.suffix (h.symm.trans ht)

/-- A recogniser that drops a character and goes on as another one. -/
theorem cons (hg : StopsBefore rest g cs) (h : ∀ tail, f (c :: tail) = g tail) : StopsBefore rest f (c :: cs) where
  append := by rw [List.cons_append, h, hg.append, h]
  suffix ht := by
    rw [h] at ht
    exact (hg.suffix ht).trans (List.suffix_cons c cs)

theorem refused_cons (h : ∀ tail, f (c :: tail) = none) : StopsBefore rest f (c :: cs) :=
  .refused (h cs) (h _)

theorem ended_cons (h : ∀ tail, f (c :: tail) = some (c :: tail)) : StopsBefore rest f (c :: cs) :=
  .ended (h cs) (h _)

theorem bind (hf : StopsBefore rest f cs) (hg : ∀ tail, StopsBefore rest g tail) :
    StopsBefore rest (fun cs => (f cs).bind g) cs where
  append := by
    rw [hf.append]
    cases f cs with
    | none => rfl
    | some tail => exact (hg tail).append
  suffix ht := by
    obtain ⟨mid, hmid, ht⟩ := Option.bind_eq_some_iff.1 ht
    exact ((hg mid).suffix ht).trans (hf.suffix hmid)

/-- A recogniser or, where it finds nothing, another one. -/
theorem orElse (hf : StopsBefore rest f cs) (hg : StopsBefore rest g cs) :
    StopsBefore rest (fun cs => (f cs).or (g cs)) cs where
  append := by
    rw [hf.append, hg.append]
    cases f cs <;> rfl
  suffix ht := by
    rcases Option.or_eq_some_iff.1 ht with ht | ⟨-, ht⟩
    · exact hf.suffix ht
    · exact hg.suffix ht

theorem dropWhile {p : Char → Bool} (hp : p d = false) (cs : List Char) :
    StopsBefore (d :: rest) (fun cs => some (cs.dropWhile p)) cs where
  append := congrArg some (dropWhile_append_break hp cs rest)
  suffix ht := by
    obtain rfl := Option.some.inj ht
    exact List.dropWhile_suffix p

end StopsBefore

/-! ### Numbers -/

/-- What follows the exponent of a number with a point, or the number where that has no exponent. -/
def afterPointed? (cs : List Char) : Option (List Char) :=
  match cs with
  | 'e' :: exponent | 'E' :: exponent => some ((afterExponent? false false exponent).getD cs)
  | _ => some cs

/-- What follows a number, from the character after its point. -/
def afterPoint? (cs : List Char) : Option (List Char) :=
  if (cs.head?.any fun d => d == '.' || isWordStart d) then none else afterPointed? (cs.dropWhile isDigitOrLine)

/-- What follows a number with a point or an exponent, from there on. -/
def afterWhole? : List Char → Option (List Char)
  | '.' :: cs => afterPoint? cs
  | 'e' :: exponent | 'E' :: exponent => afterExponent? false false exponent
  | _ => none

theorem afterFloat?_cons (c : Char) (cs : List Char) :
    afterFloat? (c :: cs) = if c.isDigit then afterWhole? (cs.dropWhile isDigitOrLine) else none := by
  cases h : c.isDigit with
  | false => simp [afterFloat?, h]
  | true =>
    simp only [afterFloat?, h, Bool.not_true, Bool.false_eq_true, if_false, if_true]
    unfold afterWhole? afterPoint? afterPointed?
    rfl

theorem afterInteger?_of_head? {c : Char} {cs : List Char}
    (h : c = '0' → ∀ e ∈ cs.head?, e ≠ 'x' ∧ e ≠ 'o' ∧ e ≠ 'b') :
    afterInteger? (c :: cs) = afterDigits? 10 false (c :: cs) := by
  unfold afterInteger?
  split <;> simp_all

section Numbers

variable {d : Char} {rest : List Char} (hd : d ∈ breaks)

include hd

theorem stopsBefore_afterExponent? : ∀ (signed valued : Bool) (cs : List Char),
    StopsBefore (d :: rest) (afterExponent? signed valued) cs
  | signed, valued, [] => by
    obtain ⟨hdigit, -, hline⟩ := isDigit_of_mem_breaks hd
    have hsign : d ≠ '+' ∧ d ≠ '-' := forall_mem_breaks (p := fun d => d ≠ '+' ∧ d ≠ '-') (by decide) hd
    have hrest : afterExponent? signed valued (d :: rest) = if valued then some (d :: rest) else none := by
      simp [afterExponent?, hdigit, hline, hsign]
    cases valued with
    | false => exact .refused rfl hrest
    | true => exact .ended rfl hrest
  | signed, valued, c :: cs => by
    by_cases hc : c.isDigit = true
    · exact (stopsBefore_afterExponent? signed true cs).cons (by simp [afterExponent?, hc])
    · by_cases hl : c = '_'
      · exact (stopsBefore_afterExponent? signed valued cs).cons (by simp [afterExponent?, hl])
      · cases valued with
        | true => exact .ended_cons (by simp [afterExponent?, hc, hl])
        | false =>
          by_cases hs : c = '+' ∨ c = '-'
          · cases signed with
            | true => exact .refused_cons (by simp [afterExponent?, hc, hl])
            | false => exact (stopsBefore_afterExponent? true false cs).cons (by simp [afterExponent?, hc, hl, hs])
          · exact .refused_cons (by simp [afterExponent?, hc, hl, hs])

theorem stopsBefore_afterDigits? (base : Nat) : ∀ (started : Bool) (cs : List Char),
    StopsBefore (d :: rest) (afterDigits? base started) cs
  | started, [] => by
    obtain ⟨-, hvalue, hline⟩ := isDigit_of_mem_breaks hd
    have hrest : afterDigits? base started (d :: rest) = if started then some (d :: rest) else none := by
      simp [afterDigits?, hvalue, hline]
    cases started with
    | false => exact .refused rfl hrest
    | true => exact .ended rfl hrest
  | started, c :: cs => by
    by_cases hl : c = '_'
    · by_cases hs : started = false ∧ base = 10
      · exact .refused_cons (by simp [afterDigits?, hl, hs])
      · have hs : ¬ (!started && base == 10) = true := by simpa using hs
        refine (stopsBefore_afterDigits? base started cs).cons fun tail => ?_
        rw [afterDigits?, if_pos (by simp [hl]), if_neg hs]
    · cases hv : digitValue? c with
      | some v =>
        by_cases hlt : v < base
        · exact (stopsBefore_afterDigits? base true cs).cons (by simp [afterDigits?, hl, hv, hlt])
        · by_cases hs : started = true ∧ c.isDigit = false
          · exact .ended_cons (by simp [afterDigits?, hl, hv, hlt, hs])
          · refine .refused_cons fun tail => ?_
            have hs : c.isDigit = false → started = false := by simpa using fun hc hst => hs ⟨hst, hc⟩
            simpa [afterDigits?, hl, hv, hlt] using hs
      | none =>
        cases started with
        | false => exact .refused_cons (by simp [afterDigits?, hl, hv])
        | true => exact .ended_cons (by simp [afterDigits?, hl, hv])

theorem stopsBefore_afterInteger? (cs : List Char) : StopsBefore (d :: rest) afterInteger? cs := by
  have hmark : d ≠ '0' ∧ d ≠ 'x' ∧ d ≠ 'o' ∧ d ≠ 'b' :=
    forall_mem_breaks (p := fun d => d ≠ '0' ∧ d ≠ 'x' ∧ d ≠ 'o' ∧ d ≠ 'b') (by decide) hd
  have hdecimal {c : Char} {tail : List Char} (h : c = '0' → ∀ e ∈ tail.head?, e ≠ 'x' ∧ e ≠ 'o' ∧ e ≠ 'b') :
      StopsBefore (d :: rest) afterInteger? (c :: tail) := by
    refine (stopsBefore_afterDigits? hd 10 false _).congr (afterInteger?_of_head? h) (afterInteger?_of_head? ?_)
    cases tail with
    | nil => simpa using fun _ => hmark.2
    | cons e tail => simpa using h
  have hbased {e : Char} {base : Nat} (tail : List Char)
      (he : ∀ tail, afterInteger? ('0' :: e :: tail) = afterDigits? base false tail) :
      StopsBefore (d :: rest) afterInteger? ('0' :: e :: tail) :=
    ((stopsBefore_afterDigits? hd base false tail).cons (f := fun tail => afterInteger? ('0' :: tail)) he).cons
      fun _ => rfl
  match cs with
  | [] =>
    exact (stopsBefore_afterDigits? hd 10 false []).congr rfl (afterInteger?_of_head? fun h => absurd h hmark.1)
  | [c] => exact hdecimal nofun
  | c :: e :: tail =>
    by_cases hc : c = '0' ∧ (e = 'x' ∨ e = 'o' ∨ e = 'b')
    · obtain ⟨rfl, rfl | rfl | rfl⟩ := hc
      · exact hbased tail fun _ => rfl
      · exact hbased tail fun _ => rfl
      · exact hbased tail fun _ => rfl
    · exact hdecimal (by simpa using hc)

theorem stopsBefore_afterPointed? (cs : List Char) : StopsBefore (d :: rest) afterPointed? cs := by
  have hletter : d ≠ 'e' ∧ d ≠ 'E' := forall_mem_breaks (p := fun d => d ≠ 'e' ∧ d ≠ 'E') (by decide) hd
  have hother {c : Char} (hc : c ≠ 'e' ∧ c ≠ 'E') (tail : List Char) :
      afterPointed? (c :: tail) = some (c :: tail) := by
    unfold afterPointed?
    split <;> simp_all
  have hexponent {c : Char} {tail : List Char} (hc : ∀ tail, afterPointed? (c :: tail) =
      some ((afterExponent? false false tail).getD (c :: tail))) :
      StopsBefore (d :: rest) afterPointed? (c :: tail) := by
    have hlong : StopsBefore (d :: rest) (fun cs => afterExponent? false false (cs.drop 1)) (c :: tail) :=
      (stopsBefore_afterExponent? hd false false tail).cons fun _ => rfl
    exact (hlong.orElse (.ended (f := some) rfl rfl)).congr (by simp [hc]) (by simp [hc])
  match cs with
  | [] => exact .ended rfl (hother hletter rest)
  | c :: tail =>
    by_cases hc : c = 'e' ∨ c = 'E'
    · rcases hc with rfl | rfl
      · exact hexponent fun _ => rfl
      · exact hexponent fun _ => rfl
    · exact .ended_cons (hother (by simpa using hc))

theorem stopsBefore_afterPoint? (cs : List Char) : StopsBefore (d :: rest) afterPoint? cs := by
  have hline : isDigitOrLine d = false := forall_mem_breaks (p := fun d => isDigitOrLine d = false) (by decide) hd
  have hhead : ((cs ++ d :: rest).head?.any fun e => e == '.' || isWordStart e) =
      cs.head?.any fun e => e == '.' || isWordStart e := by
    cases cs with
    | nil => exact forall_mem_breaks (p := fun d => (d == '.' || isWordStart d) = false) (by decide) hd
    | cons c cs => rfl
  by_cases h : (cs.head?.any fun e => e == '.' || isWordStart e) = true
  · exact .refused (by rw [afterPoint?, if_pos h]) (by rw [afterPoint?, hhead, if_pos h])
  · refine ((StopsBefore.dropWhile hline cs).bind (stopsBefore_afterPointed? hd)).congr ?_ ?_
    · rw [afterPoint?, if_neg h]; rfl
    · rw [afterPoint?, hhead, if_neg h]; rfl

theorem stopsBefore_afterWhole? (cs : List Char) : StopsBefore (d :: rest) afterWhole? cs := by
  have hmark : d ≠ '.' ∧ d ≠ 'e' ∧ d ≠ 'E' :=
    forall_mem_breaks (p := fun d => d ≠ '.' ∧ d ≠ 'e' ∧ d ≠ 'E') (by decide) hd
  have hother {c : Char} (hc : c ≠ '.' ∧ c ≠ 'e' ∧ c ≠ 'E') (tail : List Char) : afterWhole? (c :: tail) = none := by
    unfold afterWhole?
    split <;> simp_all
  match cs with
  | [] => exact .refused rfl (hother hmark rest)
  | c :: tail =>
    by_cases hc : c = '.' ∨ c = 'e' ∨ c = 'E'
    · rcases hc with rfl | rfl | rfl
      · exact (stopsBefore_afterPoint? hd tail).cons fun _ => rfl
      · exact (stopsBefore_afterExponent? hd false false tail).cons fun _ => rfl
      · exact (stopsBefore_afterExponent? hd false false tail).cons fun _ => rfl
    · exact .refused_cons (hother (by simpa using hc))

theorem stopsBefore_afterFloat? (cs : List Char) : StopsBefore (d :: rest) afterFloat? cs := by
  have hline : isDigitOrLine d = false := forall_mem_breaks (p := fun d => isDigitOrLine d = false) (by decide) hd
  match cs with
  | [] => exact .refused rfl (by simp [afterFloat?_cons, isDigit_of_mem_breaks hd])
  | c :: tail =>
    by_cases hc : c.isDigit = true
    · refine ((StopsBefore.dropWhile hline tail).bind (stopsBefore_afterWhole? hd)).cons fun tail => ?_
      rw [afterFloat?_cons, if_pos hc]
      rfl
    · exact .refused_cons fun tail => by rw [afterFloat?_cons, if_neg hc]

theorem stopsBefore_dropWord (cs : List Char) : StopsBefore (d :: rest) (fun cs => some (dropWord cs)) cs := by
  obtain ⟨hpart, hstart⟩ := isWordPart_of_mem_breaks hd
  match cs with
  | [] => exact .ended rfl (by simp [dropWord, hstart])
  | c :: tail =>
    by_cases hc : isWordStart c = true
    · exact (StopsBefore.dropWhile hpart tail).cons (by simp [dropWord, hc])
    · exact .ended_cons (by simp [dropWord, hc])

theorem stopsBefore_afterSuffix? (cs : List Char) : StopsBefore (d :: rest) afterSuffix? cs := by
  have hcheck (tail : List Char) :
      StopsBefore (d :: rest) (fun tail => if tail.head?.any isWordPart then none else some tail) tail := by
    match tail with
    | [] => exact .ended rfl (by simp [isWordPart_of_mem_breaks hd])
    | c :: tail =>
      by_cases hc : isWordPart c = true
      · exact .refused_cons (by simp [hc])
      · exact .ended_cons (by simp [hc])
  exact (stopsBefore_dropWord hd cs).bind hcheck

end Numbers

/-- What follows a number, its suffix included. -/
def afterNumber? (cs : List Char) : Option (List Char) :=
  ((afterFloat? cs).bind afterSuffix?).or ((afterInteger? cs).bind afterSuffix?)

theorem afterLiteral?_of_bareTail {cs : List Char} (h : BareTail cs) : afterLiteral? cs = afterNumber? cs := by
  unfold afterLiteral? afterNumber?
  rw [afterText?_of_bareTail h]
  cases (afterFloat? cs).bind afterSuffix? <;> rfl

theorem stopsBefore_afterNumber? {d : Char} {rest : List Char} (hd : d ∈ breaks) (cs : List Char) :
    StopsBefore (d :: rest) afterNumber? cs :=
  .orElse (.bind (stopsBefore_afterFloat? hd cs) (stopsBefore_afterSuffix? hd))
    (.bind (stopsBefore_afterInteger? hd cs) (stopsBefore_afterSuffix? hd))

/-! ## Tokens -/

/-- What starts a token of bare code, by its first character. -/
inductive Kind where
  | bracket (t : Token)
  | number
  | mark
  | word
  | nothing

def Kind.of (c : Char) : Kind :=
  match bracketToken? c with
  | some t => .bracket t
  | none =>
    if c.isDigit then .number
    else if punctuation.contains c then .mark
    else if isWordStart c then .word
    else .nothing

/-- The token of a kind that the text starts with, and what follows it. -/
def Kind.split? (cs : List Char) : Kind → Option (Token × List Char)
  | .bracket t => some (t, cs.drop 1)
  | .number => (afterNumber? cs).map (.other, ·)
  | .mark => some (.other, cs.drop 1)
  | .word => some (.word (cs.take 1 ++ (cs.drop 1).takeWhile isWordPart), (cs.drop 1).dropWhile isWordPart)
  | .nothing => none

theorem afterPunctuation?_of_isBare {c : Char} (hc : isBare c = true) (cs : List Char) :
    afterPunctuation? (c :: cs) = if punctuation.contains c then some cs else none := by
  obtain ⟨-, hquote, hslash, -⟩ := (isBare_iff c).1 hc
  unfold afterPunctuation?
  split
  · next h => exact absurd (List.cons.inj h).1 hquote
  · next e tail _ h =>
    obtain ⟨rfl, rfl⟩ := List.cons.inj h
    simp [hslash]
  · next h => exact absurd h nofun

theorem nextToken?_bare {c : Char} {cs : List Char} (hc : isBare c = true) (h : BareTail cs)
    (hmark : errorMark.isPrefixOf (c :: cs) = false) : nextToken? (c :: cs) = (Kind.of c).split? (c :: cs) := by
  have hslash : c ≠ '/' := ((isBare_iff c).1 hc).2.2.1
  have htext : BareTail (c :: cs) := .char hc h
  unfold nextToken? Kind.of
  simp only [documentation?_of_ne cs hslash, hmark, List.head?_cons, Option.bind_some, Bool.false_eq_true, if_false]
  cases hb : bracketToken? c with
  | some t => rfl
  | none =>
    simp only [afterPunctuation?_of_isBare hc, splitNameToken?_of_bareTail htext, splitWord?]
    by_cases hdigit : c.isDigit = true
    · -- a digit starts a number or nothing
      have hother : punctuation.contains c = false ∧ isWordStart c = false :=
        forall_isPlainPart (p := fun c => c.isDigit = true → punctuation.contains c = false ∧ isWordStart c = false)
          (by decide) (isPlainPart_of_isDigit hdigit) hdigit
      simp only [hdigit, hother, afterLiteral?_of_bareTail htext, Kind.split?, if_true, Bool.false_eq_true, if_false]
      cases afterNumber? (c :: cs) <;> rfl
    · have hnumber : afterLiteral? (c :: cs) = none :=
        afterLiteral?_of_not_isDigit (afterText?_of_bareTail htext) (by simpa using hdigit)
      simp only [hnumber, hdigit, Bool.false_eq_true, if_false]
      by_cases hp : punctuation.contains c = true
      · simp only [hp, if_true]
        rfl
      · by_cases hs : isWordStart c = true
        · simp only [hp, hs, if_true, Bool.false_eq_true, if_false]
          rfl
        · simp only [hp, hs, Bool.false_eq_true, if_false]
          rfl

/-- A token of bare code takes nothing of what follows a break. -/
theorem Kind.split?_append (k : Kind) {c d : Char} (hd : d ∈ breaks) (cs rest : List Char) :
    k.split? (c :: (cs ++ d :: rest)) = (k.split? (c :: cs)).map fun r => (r.1, r.2 ++ d :: rest) := by
  have hpart := (isWordPart_of_mem_breaks hd).1
  cases k with
  | bracket t => rfl
  | number =>
    have h : StopsBefore (d :: rest) afterNumber? (c :: cs) := stopsBefore_afterNumber? hd (c :: cs)
    simp only [Kind.split?, ← List.cons_append, h.append, Option.map_map]
    rfl
  | mark => rfl
  | word => simp [Kind.split?, takeWhile_append_break hpart, dropWhile_append_break hpart]
  | nothing => rfl

theorem Kind.split?_suffix (k : Kind) {c : Char} {cs : List Char} {r : Token × List Char}
    (h : k.split? (c :: cs) = some r) : r.2 <:+ c :: cs := by
  cases k with
  | bracket t =>
    obtain rfl := Option.some.inj h
    exact List.suffix_cons c cs
  | number =>
    obtain ⟨tail, ht, rfl⟩ := Option.map_eq_some_iff.1 h
    have hs : StopsBefore [' '] afterNumber? (c :: cs) := stopsBefore_afterNumber? (by decide) (c :: cs)
    exact hs.suffix ht
  | mark =>
    obtain rfl := Option.some.inj h
    exact List.suffix_cons c cs
  | word =>
    obtain rfl := Option.some.inj h
    exact (List.dropWhile_suffix isWordPart).trans (List.suffix_cons c cs)
  | nothing => exact absurd h nofun

/-! ## Scanning -/

theorem dropSpacing_spacing {c : Char} (h : isSpacing c = true) (cs : List Char) :
    dropSpacing (c :: cs) = dropSpacing cs := by
  rw [dropSpacing.eq_def (c :: cs)]
  simp only [h, if_true]

theorem scan?_spacing {c : Char} (h : isSpacing c = true) (cs : List Char) : scan? (c :: cs) = scan? cs := by
  rw [scan?_eq, scan?_eq cs, dropSpacing_spacing h]

theorem scan?_nil : scan? [] = some [] := by
  simp [scan?_eq, dropSpacing.eq_def]

theorem scan?_token {c : Char} {cs : List Char} (h : dropSpacing (c :: cs) = c :: cs) :
    scan? (c :: cs) = (nextToken? (c :: cs)).bind fun r => (scan? r.2).map (r.1 :: ·) := by
  rw [scan?_eq, h]
  dsimp only
  cases nextToken? (c :: cs) <;> rfl

/-- The error mark has a slash after its bracket, so it starts in bare code with the last bracket only. -/
theorem errorMark_isPrefixOf_cons {c : Char} {cs rest : List Char} (hcs : ∀ e ∈ cs, isBare e = true)
    (h : (c :: cs).getLast? = some '(' → errorMark.isPrefixOf ('(' :: rest) = false) :
    errorMark.isPrefixOf (c :: (cs ++ rest)) = false := by
  have hmark : errorMark = '(' :: '/' :: "*ERROR*/)".toList := by decide
  by_cases hc : c = '('
  · subst hc
    cases cs with
    | nil => exact h rfl
    | cons e cs =>
      have hslash : e ≠ '/' := ((isBare_iff e).1 (hcs e List.mem_cons_self)).2.2.1
      simp [hmark, List.isPrefixOf, hslash.symm]
  · simp [hmark, List.isPrefixOf, Ne.symm hc]

theorem getLast?_of_suffix {cs tail : List Char} {c : Char} (h : tail <:+ cs) (hc : tail.getLast? = some c) :
    cs.getLast? = some c := by
  obtain ⟨pre, rfl⟩ := h
  rw [List.getLast?_append, hc]
  rfl

/-- Text that starts with a break adds its tokens to those of bare code. -/
theorem scan?_append {d : Char} {rest : List Char} (hd : d ∈ breaks) (cs : List Char)
    (hcs : ∀ c ∈ cs, isBare c = true)
    (hmark : cs.getLast? = some '(' → errorMark.isPrefixOf ('(' :: d :: rest) = false) :
    scan? (cs ++ d :: rest) = (scan? cs).bind fun ts => (scan? (d :: rest)).map (ts ++ ·) := by
  -- the induction is on the length, as a token takes any number of characters
  match cs with
  | [] => simp [scan?_nil]
  | c :: cs =>
    have hlast {tail : List Char} (h : tail <:+ c :: cs) (hp : tail.getLast? = some '(') :
        errorMark.isPrefixOf ('(' :: d :: rest) = false :=
      hmark (getLast?_of_suffix h hp)
    obtain ⟨hc, hbare⟩ := List.forall_mem_cons.1 hcs
    by_cases hs : isSpacing c = true
    · rw [List.cons_append, scan?_spacing hs, scan?_spacing hs]
      exact scan?_append hd cs hbare (hlast (List.suffix_cons c cs))
    · have hs : isSpacing c = false := by simpa using hs
      have hslash : c ≠ '/' := ((isBare_iff c).1 hc).2.2.1
      have hcode : nextToken? (c :: cs) = (Kind.of c).split? (c :: cs) := by
        have htail : BareTail (cs ++ []) := bareTail_append hbare .nil
        have hmark : errorMark.isPrefixOf (c :: (cs ++ [])) = false :=
          errorMark_isPrefixOf_cons hbare fun _ => by decide
        rw [List.append_nil] at htail hmark
        exact nextToken?_bare hc htail hmark
      have hmore : nextToken? (c :: (cs ++ d :: rest)) = (Kind.of c).split? (c :: (cs ++ d :: rest)) :=
        nextToken?_bare hc (bareTail_append hbare (.broken hd rest)) (errorMark_isPrefixOf_cons hbare hmark)
      rw [List.cons_append, scan?_token (dropSpacing_of_not_isSpacing _ hs hslash), hmore, Kind.split?_append _ hd,
        scan?_token (dropSpacing_of_not_isSpacing _ hs hslash), ← hcode]
      cases htoken : nextToken? (c :: cs) with
      | none => rfl
      | some r =>
        obtain ⟨t, tail⟩ := r
        -- what follows the token is bare code again, with the same last character
        have hsuffix : tail <:+ c :: cs := Kind.split?_suffix _ (hcode.symm.trans htoken)
        have hlength : tail.length < cs.length + 1 := nextToken?_length htoken
        have ih := scan?_append hd tail (fun e he => hcs e (hsuffix.subset he)) (hlast hsuffix)
        simp only [Option.map_some, Option.bind_some, ih]
        cases scan? tail with
        | none => rfl
        | some ts => cases scan? (d :: rest) <;> rfl
termination_by cs.length
decreasing_by all_goals simp only [List.length_cons]; omega

/-- A break ends every word of the plain scan too. -/
theorem plainWords_append {d : Char} (hd : d ∈ breaks) (rest cs : List Char) (hcs : ∀ c ∈ cs, isBare c = true) :
    plainWords (cs ++ d :: rest) = plainWords cs ++ plainWords (d :: rest) := by
  have hpart : isPlainPart d = false := forall_mem_breaks (p := fun d => isPlainPart d = false) (by decide) hd
  match cs with
  | [] => simp [plainWords]
  | c :: cs =>
    obtain ⟨hc, hcs⟩ := List.forall_mem_cons.1 hcs
    have hplain := isPlain_of_isBare hc
    have hsuffix : cs.dropWhile isPlainPart <:+ cs := List.dropWhile_suffix isPlainPart
    have hlength := hsuffix.length_le
    have hdropped := plainWords_append hd rest (cs.dropWhile isPlainPart) fun e he => hcs e (hsuffix.subset he)
    rw [List.cons_append, plainWords_of_isPlain _ hplain, plainWords_of_isPlain _ hplain,
      takeWhile_append_break hpart, dropWhile_append_break hpart, hdropped, plainWords_append hd rest cs hcs]
    split
    · rfl
    · split
      · rfl
      · rfl
termination_by cs.length

end TypeDoctrine.Source
