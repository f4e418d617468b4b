import TypeDoctrine.Source.Identifiers

/-!
# Lexemes and how they are read

The lexemes of simple code: words, numbers, punctuation and brackets. Two scanners read them, the token
scanner and the plain scan for words. Where a blank or the end of the text follows each lexeme, both see the
same tokens: that is `Reads`, which `reads_scan?` and `reads_plainWords` give of the two.
-/

namespace TypeDoctrine.Source

open TypeDoctrine.Text (isWordStart isWordPart isBlank digitValue?)

/-- An identifier of ASCII letters, digits and underscores. -/
structure Ident where
  first : Char
  rest : List Char
  first_isStart : (first.isAlpha || first == '_') = true
  rest_isPart : ∀ c ∈ rest, isPlainPart c = true

/-- A number in decimal digits. -/
structure Number where
  first : Char
  rest : List Char
  first_isDigit : first.isDigit = true
  rest_isDigit : ∀ c ∈ rest, c.isDigit = true

/-- The punctuation of simple code. -/
def marks : List Char :=
  ['!', '=', '<', '>', '&', '|', '+', '-', '*', '.', ',', ';', ':', '?', '%']

/-- A punctuation character. -/
structure Mark where
  char : Char
  mem : char ∈ marks

/-- A lexeme of simple code. -/
inductive Lexeme where
  | word (w : Ident)
  | number (n : Number)
  | mark (m : Mark)
  | opening (b : Bracket)
  | closing (b : Bracket)

/-- The character that opens a bracket. -/
def Bracket.opener : Bracket → Char
  | .round => '('
  | .square => '['
  | .curly => '{'

/-- The character that closes a bracket. -/
def Bracket.closer : Bracket → Char
  | .round => ')'
  | .square => ']'
  | .curly => '}'

namespace Lexeme

/-- How a lexeme is written. -/
def text : Lexeme → List Char
  | .word w => w.first :: w.rest
  | .number n => n.first :: n.rest
  | .mark m => [m.char]
  | .opening b => [b.opener]
  | .closing b => [b.closer]

/-- The token of a lexeme. -/
def token : Lexeme → Token
  | .word w => .word (w.first :: w.rest)
  | .number _ => .other
  | .mark _ => .other
  | .opening b => .opening b
  | .closing b => .closing b

end Lexeme

/-- The text is at its end or goes on with a blank. -/
def Ends (rest : List Char) : Prop :=
  ∀ c ∈ rest.head?, c = ' '

/-- A scanner reads simple code token by token: blanks count for nothing, and each lexeme or string that a
blank or the end follows adds its token to what the rest gives. -/
structure Reads {R : Type} (run : List Char → R) (add : Token → R → R) : Prop where
  blank : ∀ rest, run (' ' :: rest) = run rest
  lexeme : ∀ (x : Lexeme) {rest}, Ends rest → run (x.text ++ rest) = add x.token (run rest)
  string : ∀ {body rest}, (∀ c ∈ body, c ≠ '"' ∧ c ≠ '\\' ∧ c ≠ '\r') → Ends rest →
    run ('"' :: (body ++ '"' :: rest)) = add .other (run rest)

/-! ## Characters -/

/-- The characters of words. -/
def wordChars : List Char :=
  ['A', 'B', 'C', 'D', 'E', 'F', 'G', 'H', 'I', 'J', 'K', 'L', 'M', 'N', 'O', 'P', 'Q', 'R', 'S', 'T', 'U', 'V',
    'W', 'X', 'Y', 'Z', '_', 'a', 'b', 'c', 'd', 'e', 'f', 'g', 'h', 'i', 'j', 'k', 'l', 'm', 'n', 'o', 'p', 'q',
    'r', 's', 't', 'u', 'v', 'w', 'x', 'y', 'z', '0', '1', '2', '3', '4', '5', '6', '7', '8', '9']

theorem mem_wordChars {c : Char} (hc : isPlainPart c = true) : c ∈ wordChars := by
  have hlt : c.toNat < 128 := by
    have hupper (h : c.isUpper = true) : c.val ≤ 'Z'.val := (of_decide_eq_true h).2
    have hlower (h : c.isLower = true) : c.val ≤ 'z'.val := of_decide_eq_true (Bool.and_eq_true_iff.1 h).2
    have hdigit (h : c.isDigit = true) : c.val ≤ '9'.val := of_decide_eq_true (Bool.and_eq_true_iff.1 h).2
    rcases Bool.or_eq_true_iff.1 hc with hc | hc
    · rcases Bool.or_eq_true_iff.1 hc with hc | hc
      · rcases Bool.or_eq_true_iff.1 hc with hc | hc
        · exact Nat.lt_of_le_of_lt (hupper hc) (by decide)
        · exact Nat.lt_of_le_of_lt (hlower hc) (by decide)
      · exact Nat.lt_of_le_of_lt (hdigit hc) (by decide)
    · obtain rfl : c = '_' := beq_iff_eq.1 hc
      decide
  -- below 128 the characters are tried one by one
  have hall : ∀ n < 128, isPlainPart (Char.ofNat n) = true → Char.ofNat n ∈ wordChars := by decide +kernel
  have hn := hall c.toNat hlt
  rw [Char.ofNat_toNat] at hn
  exact hn hc

theorem forall_isPlainPart {p : Char → Prop} [DecidablePred p] (h : wordChars.all (fun c => decide (p c)) = true)
    {c : Char} (hc : isPlainPart c = true) : p c :=
  of_decide_eq_true (List.all_eq_true.1 h c (mem_wordChars hc))

theorem forall_mem_marks {p : Char → Prop} [DecidablePred p] (h : marks.all (fun c => decide (p c)) = true)
    {c : Char} (hc : c ∈ marks) : p c :=
  of_decide_eq_true (List.all_eq_true.1 h c hc)

theorem isPlainPart_of_isStart {c : Char} (h : (c.isAlpha || c == '_') = true) : isPlainPart c = true := by
  simp only [isPlainPart, Char.isAlphanum, Bool.or_eq_true] at h ⊢
  rcases h with h | h
  · exact .inl (.inl h)
  · exact .inr h

theorem isPlainPart_of_isDigit {c : Char} (h : c.isDigit = true) : isPlainPart c = true := by
  simp [isPlainPart, Char.isAlphanum, h]

theorem isWordPart_of_isPlainPart {c : Char} (h : isPlainPart c = true) : isWordPart c = true :=
  forall_isPlainPart (p := fun c => isWordPart c = true) (by decide) h

theorem isWordStart_of_isStart {c : Char} (h : (c.isAlpha || c == '_') = true) : isWordStart c = true :=
  forall_isPlainPart (p := fun c => (c.isAlpha || c == '_') = true → isWordStart c = true) (by decide)
    (isPlainPart_of_isStart h) h

/-- The characters that open no comment, no string and no interpolated string. -/
def isPlain (c : Char) : Bool :=
  !(['/', '"', '\'', '$', '@'].contains c)

theorem isPlain_iff (c : Char) :
    isPlain c = true ↔ c ≠ '/' ∧ c ≠ '"' ∧ c ≠ '\'' ∧ c ≠ '$' ∧ c ≠ '@' := by
  simp [isPlain]

/-- What holds of word characters, punctuation and brackets holds of every character of a lexeme. -/
theorem Lexeme.forall_mem_text {p : Char → Prop} [DecidablePred p]
    (hpart : wordChars.all (fun c => decide (p c)) = true) (hmark : marks.all (fun c => decide (p c)) = true)
    (hbracket : ∀ b : Bracket, p b.opener ∧ p b.closer) (x : Lexeme) : ∀ c ∈ x.text, p c := by
  cases x with
  | word w =>
    exact List.forall_mem_cons.2 ⟨forall_isPlainPart hpart (isPlainPart_of_isStart w.first_isStart),
      fun c hc => forall_isPlainPart hpart (w.rest_isPart c hc)⟩
  | number n =>
    exact List.forall_mem_cons.2 ⟨forall_isPlainPart hpart (isPlainPart_of_isDigit n.first_isDigit),
      fun c hc => forall_isPlainPart hpart (isPlainPart_of_isDigit (n.rest_isDigit c hc))⟩
  | mark m => exact List.forall_mem_singleton.2 (forall_mem_marks hmark m.mem)
  | opening b => exact List.forall_mem_singleton.2 (hbracket b).1
  | closing b => exact List.forall_mem_singleton.2 (hbracket b).2

/-- Every character of a lexeme is plain and no blank. -/
theorem Lexeme.isPlain_text (x : Lexeme) : ∀ c ∈ x.text, isPlain c = true ∧ isSpacing c = false :=
  Lexeme.forall_mem_text (by decide) (by decide) (fun b => by cases b <;> decide) x

theorem Lexeme.text_eq_cons (x : Lexeme) :
    ∃ c cs, x.text = c :: cs ∧ isPlain c = true ∧ isSpacing c = false := by
  have hne : x.text ≠ [] := by cases x <;> exact List.cons_ne_nil _ _
  obtain ⟨c, cs, hx⟩ := List.exists_cons_of_ne_nil hne
  exact ⟨c, cs, hx, x.isPlain_text c (by rw [hx]; exact List.mem_cons_self)⟩

/-- The characters of code that belong to no literal, comment or escape. -/
def isBare (c : Char) : Bool :=
  !(['"', '\'', '/', '$', '@', '#', '\\', '`'].contains c)

theorem isBare_iff (c : Char) :
    isBare c = true ↔ c ≠ '"' ∧ c ≠ '\'' ∧ c ≠ '/' ∧ c ≠ '$' ∧ c ≠ '@' ∧ c ≠ '#' ∧ c ≠ '\\' ∧ c ≠ '`' := by
  simp [isBare]

theorem isBare_of_isPlainPart {c : Char} (h : isPlainPart c = true) : isBare c = true :=
  forall_isPlainPart (p := fun c => isBare c = true) (by decide) h

/-- The characters that end every token of bare code before them. -/
def breaks : List Char :=
  [' ', '/', '(']

theorem forall_mem_breaks {p : Char → Prop} [DecidablePred p] (h : breaks.all (fun c => decide (p c)) = true)
    {d : Char} (hd : d ∈ breaks) : p d :=
  of_decide_eq_true (List.all_eq_true.1 h d hd)

/-- Text that goes on with bare code, up to a break or the end. -/
inductive BareTail : List Char → Prop where
  | nil : BareTail []
  | broken {d : Char} (hd : d ∈ breaks) (rest : List Char) : BareTail (d :: rest)
  | char {c : Char} {rest : List Char} (hc : isBare c = true) (tail : BareTail rest) : BareTail (c :: rest)

theorem bareTail_of_ends {rest : List Char} (h : Ends rest) : BareTail rest := by
  cases rest with
  | nil => exact .nil
  | cons c rest =>
    obtain rfl : c = ' ' := h c rfl
    exact .broken (by decide) rest

theorem bareTail_append {cs rest : List Char} (h : ∀ c ∈ cs, isBare c = true) (hr : BareTail rest) :
    BareTail (cs ++ rest) := by
  induction cs with
  | nil => exact hr
  | cons c cs ih =>
    obtain ⟨hc, hcs⟩ := List.forall_mem_cons.1 h
    exact .char hc (ih hcs)

theorem Ident.bareTail (w : Ident) {rest : List Char} (h : Ends rest) : BareTail (w.first :: (w.rest ++ rest)) :=
  .char (isBare_of_isPlainPart (isPlainPart_of_isStart w.first_isStart))
    (bareTail_append (fun c hc => isBare_of_isPlainPart (w.rest_isPart c hc)) (bareTail_of_ends h))

theorem Number.bareTail (n : Number) {rest : List Char} (h : Ends rest) : BareTail (n.first :: (n.rest ++ rest)) :=
  .char (isBare_of_isPlainPart (isPlainPart_of_isDigit n.first_isDigit))
    (bareTail_append (fun c hc => isBare_of_isPlainPart (isPlainPart_of_isDigit (n.rest_isDigit c hc)))
      (bareTail_of_ends h))

/-- Neither a quote nor a hash sign goes on bare code. -/
theorem BareTail.head_ne {c : Char} {rest : List Char} (h : BareTail (c :: rest)) :
    c ≠ '"' ∧ c ≠ '#' ∧ c ≠ '\'' := by
  cases h with
  | broken hd =>
    exact forall_mem_breaks (p := fun d => d ≠ '"' ∧ d ≠ '#' ∧ d ≠ '\'') (by decide) hd
  | char hc _ =>
    obtain ⟨hq, ha, -, -, -, hn, -⟩ := (isBare_iff c).1 hc
    exact ⟨hq, hn, ha⟩

theorem BareTail.tail {c : Char} {rest : List Char} (h : BareTail (c :: rest)) (hc : c ∉ breaks) :
    BareTail rest := by
  cases h with
  | broken hd => exact absurd hd hc
  | char _ h => exact h

/-- Taking characters that the end of a lexeme stops. -/
theorem takeWhile_ends {p : Char → Bool} (hp : p ' ' = false) {rest : List Char} (h : Ends rest) :
    rest.takeWhile p = [] ∧ rest.dropWhile p = rest := by
  cases rest with
  | nil => exact ⟨rfl, rfl⟩
  | cons c rest =>
    obtain rfl : c = ' ' := h c rfl
    simp [hp]

theorem takeWhile_append_ends {p : Char → Bool} (hp : p ' ' = false) {cs rest : List Char}
    (hcs : ∀ c ∈ cs, p c = true) (h : Ends rest) :
    (cs ++ rest).takeWhile p = cs ∧ (cs ++ rest).dropWhile p = rest := by
  obtain ⟨ht, hd⟩ := takeWhile_ends hp h
  rw [List.takeWhile_append_of_pos hcs, List.dropWhile_append_of_pos hcs, ht, hd, List.append_nil]
  exact ⟨rfl, rfl⟩

/-! ## The token scanner -/

theorem dropSpacing_blank (rest : List Char) : dropSpacing (' ' :: rest) = dropSpacing rest := by
  have hs : isSpacing ' ' = true := by decide
  rw [dropSpacing.eq_def (' ' :: rest)]
  simp only [hs, if_true]

theorem dropSpacing_of_not_isSpacing {c : Char} (rest : List Char) (hs : isSpacing c = false) (hc : c ≠ '/') :
    dropSpacing (c :: rest) = c :: rest := by
  have hb : (c == '/') = false := beq_eq_false_iff_ne.2 hc
  rw [dropSpacing.eq_def]
  simp only [hs, hb, Bool.false_and, Bool.false_eq_true, if_false]

theorem scan?_eq (cs : List Char) :
    scan? cs = match dropSpacing cs with
      | [] => some []
      | c :: rest => match nextToken? (c :: rest) with
        | some (t, tail) => (scan? tail).map (t :: ·)
        | none => none := by
  rw [scan?]
  split
  · next h => rw [h]
  · next c rest h =>
    rw [h]
    split
    · next ht => simp only [ht]
    · next ht => simp only [ht]

theorem scan?_blank (rest : List Char) : scan? (' ' :: rest) = scan? rest := by
  rw [scan?_eq, scan?_eq rest, dropSpacing_blank]

theorem scan?_cons {c : Char} {rest tail : List Char} {t : Token} (hs : isSpacing c = false) (hc : c ≠ '/')
    (ht : nextToken? (c :: rest) = some (t, tail)) : scan? (c :: rest) = (scan? tail).map (t :: ·) := by
  rw [scan?_eq, dropSpacing_of_not_isSpacing rest hs hc]
  simp only [ht]

theorem documentation?_of_ne {c : Char} (rest : List Char) (hc : c ≠ '/') : documentation? (c :: rest) = none := by
  unfold documentation?
  split <;> simp_all

theorem nextToken?_bracket {c : Char} {rest : List Char} {t : Token} (ht : bracketToken? c = some t)
    (h : Ends rest) : nextToken? (c :: rest) = some (t, rest) := by
  have hc : c ≠ '/' := by
    rintro rfl
    simp [bracketToken?] at ht
  -- a round bracket is not the start of the error mark, which goes on with a slash
  have he : errorMark.isPrefixOf (c :: rest) = false := by
    rw [show errorMark = '(' :: '/' :: "*ERROR*/)".toList from by decide]
    cases rest with
    | nil => simp [List.isPrefixOf]
    | cons d rest =>
      obtain rfl : d = ' ' := h d rfl
      simp [List.isPrefixOf]
  unfold nextToken?
  rw [documentation?_of_ne rest hc]
  simp [he, ht]

section Choice

variable {c : Char} {rest tail : List Char} (hc : c ≠ '/') (hb : bracketToken? c = none)

include hb in
theorem isPrefixOf_errorMark : errorMark.isPrefixOf (c :: rest) = false := by
  have hc : ('(' == c) = false := by
    rw [beq_eq_false_iff_ne]
    rintro rfl
    simp [bracketToken?] at hb
  rw [show errorMark = '(' :: "/*ERROR*/)".toList from by decide]
  simp [List.isPrefixOf, hc]

include hc hb

theorem nextToken?_literal (h : afterLiteral? (c :: rest) = some tail) :
    nextToken? (c :: rest) = some (.other, tail) := by
  unfold nextToken?
  simp only [documentation?_of_ne rest hc, isPrefixOf_errorMark hb, List.head?_cons, Option.bind_some, hb, h,
    Bool.false_eq_true, if_false]

variable (hl : afterLiteral? (c :: rest) = none)

include hl

theorem nextToken?_punctuation (h : afterPunctuation? (c :: rest) = some tail) :
    nextToken? (c :: rest) = some (.other, tail) := by
  unfold nextToken?
  simp only [documentation?_of_ne rest hc, isPrefixOf_errorMark hb, List.head?_cons, Option.bind_some, hb, hl, h,
    Bool.false_eq_true, if_false]

theorem nextToken?_name {name : List Char} (hp : afterPunctuation? (c :: rest) = none)
    (h : splitNameToken? (c :: rest) = some (name, tail)) : nextToken? (c :: rest) = some (.word name, tail) := by
  unfold nextToken?
  simp only [documentation?_of_ne rest hc, isPrefixOf_errorMark hb, List.head?_cons, Option.bind_some, hb, hl, hp,
    h, Bool.false_eq_true, if_false, Option.map_some]

end Choice

/-! ### Literals -/

theorem afterRaw?_of_bareTail (content : Content) {cs : List Char} (h : BareTail cs) :
    afterRaw? content cs = none := by
  have hd : cs.dropWhile (· == '#') = cs := by
    cases cs with
    | nil => rfl
    | cons c cs => simp [h.head_ne.2.1]
  unfold afterRaw?
  rw [hd]
  split
  · exact absurd rfl h.head_ne.1
  · rfl

/-- Bare code is no string, whatever letter it starts with. -/
theorem afterText?_of_bareTail {cs : List Char} (h : BareTail cs) : afterText? cs = none := by
  unfold afterText?
  split
  · exact absurd rfl h.head_ne.1
  · exact afterRaw?_of_bareTail _ (h.tail (by decide))
  · exact absurd rfl (h.tail (by decide)).head_ne.1
  · exact afterRaw?_of_bareTail _ ((h.tail (by decide)).tail (by decide))
  · exact absurd rfl (h.tail (by decide)).head_ne.1
  · exact afterRaw?_of_bareTail _ ((h.tail (by decide)).tail (by decide))
  · exact absurd rfl (h.tail (by decide)).head_ne.2.2
  · exact absurd rfl h.head_ne.2.2
  · rfl

theorem afterText?_of_mem_marks {c : Char} (rest : List Char) (h : c ∈ marks) : afterText? (c :: rest) = none := by
  have hne : c ≠ '"' ∧ c ≠ 'r' ∧ c ≠ 'b' ∧ c ≠ 'c' ∧ c ≠ '\'' :=
    forall_mem_marks (p := fun c => c ≠ '"' ∧ c ≠ 'r' ∧ c ≠ 'b' ∧ c ≠ 'c' ∧ c ≠ '\'') (by decide) h
  unfold afterText?
  split <;> simp_all

theorem afterDigits?_of_not_isDigit {c : Char} (rest : List Char) (h : c.isDigit = false) :
    afterDigits? 10 false (c :: rest) = none := by
  rw [afterDigits?]
  split
  · rfl
  · split
    · next d hd =>
      -- a letter stands for ten or more
      have hten : ¬ d < 10 := by
        unfold digitValue? at hd
        simp only [h, Bool.false_eq_true, if_false] at hd
        split at hd
        · obtain rfl := Option.some.inj hd
          omega
        · split at hd
          · obtain rfl := Option.some.inj hd
            omega
          · exact absurd hd (by simp)
      simp [hten, h]
    · rfl

theorem afterLiteral?_of_not_isDigit {c : Char} {rest : List Char} (ht : afterText? (c :: rest) = none)
    (h : c.isDigit = false) : afterLiteral? (c :: rest) = none := by
  have hf : afterFloat? (c :: rest) = none := by simp [afterFloat?, h]
  have hzero : c ≠ '0' := by
    rintro rfl
    exact absurd h (by decide)
  have hi : afterInteger? (c :: rest) = afterDigits? 10 false (c :: rest) := by
    unfold afterInteger?
    split <;> simp_all
  rw [afterDigits?_of_not_isDigit rest h] at hi
  unfold afterLiteral?
  simp only [ht, hf, hi, Option.bind_none]

theorem dropWord_of_ends {rest : List Char} (h : Ends rest) : dropWord rest = rest := by
  cases rest with
  | nil => rfl
  | cons c rest =>
    obtain rfl : c = ' ' := h c rfl
    have hs : isWordStart ' ' = false := by decide
    simp [dropWord, hs]

theorem afterSuffix?_of_ends {rest : List Char} (h : Ends rest) : afterSuffix? rest = some rest := by
  unfold afterSuffix?
  rw [dropWord_of_ends h]
  cases rest with
  | nil => rfl
  | cons c rest =>
    obtain rfl : c = ' ' := h c rfl
    have hp : isWordPart ' ' = false := by decide
    simp [hp]

theorem afterDigits?_cons {d : Char} (started : Bool) (rest : List Char) (hd : d.isDigit = true) :
    afterDigits? 10 started (d :: rest) = afterDigits? 10 true rest := by
  have hv : (d == '_') = false ∧ (digitValue? d).any (· < 10) = true := by
    refine forall_isPlainPart (p := fun c => c.isDigit = true → (c == '_') = false ∧
      (digitValue? c).any (· < 10) = true) ?_ (isPlainPart_of_isDigit hd) hd
    decide
  obtain ⟨v, hv', hlt⟩ := (Option.any_eq_true _ _).1 hv.2
  rw [afterDigits?]
  simp only [hv.1, hv', of_decide_eq_true hlt, Bool.false_eq_true, if_false, if_true]

theorem afterDigits?_append {ds rest : List Char} (hds : ∀ c ∈ ds, c.isDigit = true) (h : Ends rest) :
    afterDigits? 10 true (ds ++ rest) = some rest := by
  induction ds with
  | nil =>
    cases rest with
    | nil => rfl
    | cons c rest =>
      obtain rfl : c = ' ' := h c rfl
      simp [afterDigits?, show digitValue? ' ' = none by decide]
  | cons d ds ih =>
    obtain ⟨hd, hds⟩ := List.forall_mem_cons.1 hds
    rw [List.cons_append, afterDigits?_cons true (ds ++ rest) hd]
    exact ih hds

theorem afterInteger?_eq_afterDigits? {c : Char} {rest : List Char}
    (h : ∀ d ∈ rest.head?, d.isDigit = true ∨ d = ' ') :
    afterInteger? (c :: rest) = afterDigits? 10 false (c :: rest) := by
  cases rest with
  | nil => simp [afterInteger?]
  | cons d rest =>
    have hd : d ≠ 'x' ∧ d ≠ 'o' ∧ d ≠ 'b' := by
      have hd := h d rfl
      refine ⟨?_, ?_, ?_⟩ <;> rintro rfl <;> exact absurd hd (by decide)
    unfold afterInteger?
    split <;> simp_all

theorem afterLiteral?_number (n : Number) {rest : List Char} (h : Ends rest) :
    afterLiteral? (n.first :: (n.rest ++ rest)) = some rest := by
  have ht := afterText?_of_bareTail (n.bareTail h)
  have hf : afterFloat? (n.first :: (n.rest ++ rest)) = none := by
    have hline : ∀ c ∈ n.rest, isDigitOrLine c = true := fun c hc => by simp [isDigitOrLine, n.rest_isDigit c hc]
    have hd := (takeWhile_append_ends (by decide) hline h).2
    unfold afterFloat?
    simp only [n.first_isDigit, hd]
    cases rest with
    | nil => rfl
    | cons c rest =>
      obtain rfl : c = ' ' := h c rfl
      rfl
  have hi : afterInteger? (n.first :: (n.rest ++ rest)) = some rest := by
    rw [afterInteger?_eq_afterDigits?, afterDigits?_cons false _ n.first_isDigit]
    · exact afterDigits?_append n.rest_isDigit h
    · intro d hd
      cases hr : n.rest with
      | nil =>
        rw [hr] at hd
        exact .inr (h d hd)
      | cons e es =>
        rw [hr] at hd
        obtain rfl := Option.some.inj hd
        exact .inl (n.rest_isDigit e (by simp [hr]))
  unfold afterLiteral?
  simp only [ht, hf, hi, Option.bind_none, Option.bind_some, afterSuffix?_of_ends h]

theorem afterQuoted?_append {body rest : List Char} (h : ∀ c ∈ body, c ≠ '"' ∧ c ≠ '\\' ∧ c ≠ '\r') :
    afterQuoted? .text (body ++ '"' :: rest) = some rest := by
  induction body with
  | nil => simp [afterQuoted?]
  | cons c body ih =>
    obtain ⟨⟨hq, hb, hr⟩, hbody⟩ := List.forall_mem_cons.1 h
    rw [List.cons_append, afterQuoted?.eq_def]
    simp only [beq_eq_false_iff_ne.2 hq, beq_eq_false_iff_ne.2 hb, beq_eq_false_iff_ne.2 hr, Bool.false_eq_true,
      if_false, Content.admits, if_true]
    exact ih hbody

/-! ### Words -/

theorem BareTail.isBare_of_isPrefixOf {cs l : List Char} (h : BareTail cs) (hl : l.isPrefixOf cs = true)
    (hs : ∀ c ∈ l, c ∉ breaks) : ∀ c ∈ l, isBare c = true := by
  induction h generalizing l with
  | nil =>
    cases l with
    | nil => simp
    | cons c l => simp [List.isPrefixOf] at hl
  | broken hd rest =>
    cases l with
    | nil => simp
    | cons c l =>
      simp only [List.isPrefixOf, Bool.and_eq_true, beq_iff_eq] at hl
      obtain ⟨rfl, -⟩ := hl
      exact absurd hd (hs c List.mem_cons_self)
  | char hc _ ih =>
    cases l with
    | nil => simp
    | cons c l =>
      simp only [List.isPrefixOf, Bool.and_eq_true, beq_iff_eq] at hl
      obtain ⟨rfl, hl⟩ := hl
      exact List.forall_mem_cons.2 ⟨hc, ih hl fun c hm => hs c (List.mem_cons_of_mem _ hm)⟩

/-- Each opener of a literal has a character that bare code has not. -/
theorem literalOpeners_any_of_bareTail {cs : List Char} (h : BareTail cs) :
    literalOpeners.any (·.isPrefixOf cs) = false := by
  have hall : ∀ l ∈ literalOpeners, (l.all fun c => decide (c ∉ breaks)) = true ∧ l.all isBare = false := by decide
  rw [List.any_eq_false]
  intro l hl hp
  obtain ⟨hs, hn⟩ := hall l hl
  have hs : ∀ c ∈ l, c ∉ breaks := fun c hc => of_decide_eq_true (List.all_eq_true.1 hs c hc)
  rw [List.all_eq_true.2 (h.isBare_of_isPrefixOf hp hs)] at hn
  exact absurd hn (by decide)

/-- After its first letter a raw name has a number sign, which bare code has not. -/
theorem splitNameToken?_of_bareTail {cs : List Char} (h : BareTail cs) : splitNameToken? cs = splitWord? cs := by
  unfold splitNameToken?
  rw [literalOpeners_any_of_bareTail h, if_neg Bool.false_ne_true]
  unfold splitName?
  split
  · exact absurd rfl (h.tail (by decide)).head_ne.2.1
  · rfl

theorem splitNameToken?_word (w : Ident) {rest : List Char} (h : Ends rest) :
    splitNameToken? (w.first :: (w.rest ++ rest)) = some (w.first :: w.rest, rest) := by
  obtain ⟨ht, hd⟩ := takeWhile_append_ends (p := isWordPart) (by decide)
    (fun c hc => isWordPart_of_isPlainPart (w.rest_isPart c hc)) h
  rw [splitNameToken?_of_bareTail (w.bareTail h)]
  simp only [splitWord?, isWordStart_of_isStart w.first_isStart, ht, hd, if_true]

theorem afterPunctuation?_of_isStart {c : Char} (rest : List Char) (h : (c.isAlpha || c == '_') = true) :
    afterPunctuation? (c :: rest) = none := by
  have hc : c ≠ '\'' ∧ c ≠ '/' ∧ punctuation.contains c = false := by
    refine forall_isPlainPart (p := fun c => (c.isAlpha || c == '_') = true →
      c ≠ '\'' ∧ c ≠ '/' ∧ punctuation.contains c = false) ?_ (isPlainPart_of_isStart h) h
    decide
  unfold afterPunctuation?
  split <;> simp_all

theorem afterPunctuation?_of_mem_marks {c : Char} (rest : List Char) (h : c ∈ marks) :
    afterPunctuation? (c :: rest) = some rest := by
  have hc : c ≠ '\'' ∧ c ≠ '/' ∧ punctuation.contains c = true :=
    forall_mem_marks (p := fun c => c ≠ '\'' ∧ c ≠ '/' ∧ punctuation.contains c = true) (by decide) h
  unfold afterPunctuation?
  split <;> simp_all

/-! ### One lexeme -/

theorem isDigit_of_isStart {c : Char} (h : (c.isAlpha || c == '_') = true) : c.isDigit = false :=
  forall_isPlainPart (p := fun c => (c.isAlpha || c == '_') = true → c.isDigit = false) (by decide)
    (isPlainPart_of_isStart h) h

theorem isStart_of_mem_marks {c : Char} (h : c ∈ marks) : (c.isAlpha || c == '_') = false ∧ c.isDigit = false :=
  forall_mem_marks (p := fun c => (c.isAlpha || c == '_') = false ∧ c.isDigit = false) (by decide) h

theorem bracketToken?_opener (b : Bracket) : bracketToken? b.opener = some (.opening b) := by
  cases b <;> rfl

theorem bracketToken?_closer (b : Bracket) : bracketToken? b.closer = some (.closing b) := by
  cases b <;> rfl

theorem nextToken?_lexeme (x : Lexeme) {rest : List Char} (h : Ends rest) :
    nextToken? (x.text ++ rest) = some (x.token, rest) := by
  have hpart : ∀ {c : Char}, isPlainPart c = true → c ≠ '/' ∧ bracketToken? c = none := fun hc =>
    forall_isPlainPart (p := fun c => c ≠ '/' ∧ bracketToken? c = none) (by decide) hc
  cases x with
  | word w =>
    obtain ⟨hc, hb⟩ := hpart (isPlainPart_of_isStart w.first_isStart)
    have hlit := afterLiteral?_of_not_isDigit (afterText?_of_bareTail (w.bareTail h))
      (isDigit_of_isStart w.first_isStart)
    exact nextToken?_name hc hb hlit (afterPunctuation?_of_isStart _ w.first_isStart) (splitNameToken?_word w h)
  | number n =>
    obtain ⟨hc, hb⟩ := hpart (isPlainPart_of_isDigit n.first_isDigit)
    exact nextToken?_literal hc hb (afterLiteral?_number n h)
  | mark m =>
    obtain ⟨hc, hb⟩ : m.char ≠ '/' ∧ bracketToken? m.char = none :=
      forall_mem_marks (p := fun c => c ≠ '/' ∧ bracketToken? c = none) (by decide) m.mem
    have hlit := afterLiteral?_of_not_isDigit (afterText?_of_mem_marks rest m.mem) (isStart_of_mem_marks m.mem).2
    exact nextToken?_punctuation hc hb hlit (afterPunctuation?_of_mem_marks rest m.mem)
  | opening b => exact nextToken?_bracket (bracketToken?_opener b) h
  | closing b => exact nextToken?_bracket (bracketToken?_closer b) h

theorem nextToken?_string {body rest : List Char} (hbody : ∀ c ∈ body, c ≠ '"' ∧ c ≠ '\\' ∧ c ≠ '\r')
    (h : Ends rest) : nextToken? ('"' :: (body ++ '"' :: rest)) = some (.other, rest) := by
  have hlit : afterLiteral? ('"' :: (body ++ '"' :: rest)) = some rest := by
    unfold afterLiteral?
    rw [show afterText? ('"' :: (body ++ '"' :: rest)) = some rest from afterQuoted?_append hbody]
    simp only [dropWord_of_ends h]
  exact nextToken?_literal (by decide) rfl hlit

theorem reads_scan? : Reads scan? fun t => Option.map (t :: ·) where
  blank := scan?_blank
  lexeme x rest h := by
    obtain ⟨c, cs, hx, hc, hs⟩ := x.text_eq_cons
    have ht := nextToken?_lexeme x h
    rw [hx, List.cons_append] at ht ⊢
    exact scan?_cons hs ((isPlain_iff c).1 hc).1 ht
  string hbody h := scan?_cons (by decide) (by decide) (nextToken?_string hbody h)

/-! ## The plain scan -/

/-- A literal without backslashes ends at its quote. -/
theorem splitLiteral_append_quote {body rest : List Char} (h : ∀ c ∈ body, c ≠ '"' ∧ c ≠ '\\') :
    splitLiteral '"' false (body ++ '"' :: rest) = (body ++ ['"'], rest) := by
  induction body with
  | nil => cases rest <;> simp [splitLiteral]
  | cons c body ih =>
    obtain ⟨⟨hq, hb⟩, hbody⟩ := List.forall_mem_cons.1 h
    obtain ⟨d, tail, ht⟩ := List.exists_cons_of_ne_nil (l := body ++ '"' :: rest) (by simp)
    have ih := ih hbody
    rw [List.cons_append, ht] at *
    simp only [splitLiteral, beq_eq_false_iff_ne.2 hq, beq_eq_false_iff_ne.2 hb, ih, Bool.false_and, Bool.or_self,
      Bool.false_eq_true, if_false]
    rfl

theorem plainWords_of_isPlain {c : Char} (rest : List Char) (hc : isPlain c = true) :
    plainWords (c :: rest) =
      if c.isAlpha || c == '_' then (c :: rest.takeWhile isPlainPart) :: plainWords (rest.dropWhile isPlainPart)
      else if c.isDigit then plainWords (rest.dropWhile isPlainPart)
      else plainWords rest := by
  obtain ⟨hslash, hquote, hapostrophe, -⟩ := (isPlain_iff c).1 hc
  rw [plainWords]
  simp only [beq_eq_false_iff_ne.2 hslash, beq_eq_false_iff_ne.2 hquote, beq_eq_false_iff_ne.2 hapostrophe,
    Bool.false_and, Bool.or_self, Bool.false_eq_true, if_false]

theorem plainWords_skip {c : Char} (rest : List Char) (hc : isPlain c = true)
    (hs : (c.isAlpha || c == '_') = false) (hd : c.isDigit = false) :
    plainWords (c :: rest) = plainWords rest := by
  rw [plainWords_of_isPlain rest hc]
  simp only [hs, hd, Bool.false_eq_true, if_false]

theorem plainWords_lexeme (x : Lexeme) {rest : List Char} (h : Ends rest) :
    plainWords (x.text ++ rest) = Token.names [x.token] ++ plainWords rest := by
  have hblank : isPlainPart ' ' = false := by decide
  obtain ⟨c, cs, hx, hc, -⟩ := x.text_eq_cons
  cases x with
  | word w =>
    obtain ⟨rfl, rfl⟩ := List.cons.inj hx
    obtain ⟨ht, hd⟩ := takeWhile_append_ends hblank w.rest_isPart h
    simp only [Lexeme.text, List.cons_append]
    rw [plainWords_of_isPlain _ hc, if_pos w.first_isStart, ht, hd]
    rfl
  | number n =>
    obtain ⟨rfl, rfl⟩ := List.cons.inj hx
    have hs : ¬ (n.first.isAlpha || n.first == '_') = true := by
      intro hs
      exact absurd n.first_isDigit (by rw [isDigit_of_isStart hs]; decide)
    obtain ⟨-, hd⟩ := takeWhile_append_ends hblank (fun c hc => isPlainPart_of_isDigit (n.rest_isDigit c hc)) h
    simp only [Lexeme.text, List.cons_append]
    rw [plainWords_of_isPlain _ hc, if_neg hs, if_pos n.first_isDigit, hd]
    rfl
  | mark m =>
    obtain ⟨rfl, rfl⟩ := List.cons.inj hx
    exact plainWords_skip rest hc (isStart_of_mem_marks m.mem).1 (isStart_of_mem_marks m.mem).2
  | opening b =>
    obtain ⟨rfl, rfl⟩ := List.cons.inj hx
    exact plainWords_skip rest hc (by cases b <;> decide) (by cases b <;> decide)
  | closing b =>
    obtain ⟨rfl, rfl⟩ := List.cons.inj hx
    exact plainWords_skip rest hc (by cases b <;> decide) (by cases b <;> decide)

theorem reads_plainWords : Reads plainWords fun t names => Token.names [t] ++ names where
  blank rest := plainWords_skip rest (by decide) (by decide) (by decide)
  lexeme x _ h := plainWords_lexeme x h
  string {body rest} hbody _ := by
    have hl : splitLiteral '"' false (body ++ '"' :: rest) = (body ++ ['"'], rest) :=
      splitLiteral_append_quote fun c hc => ⟨(hbody c hc).1, (hbody c hc).2.1⟩
    rw [plainWords]
    simp [hl, Token.names]

end TypeDoctrine.Source
