import TypeDoctrine.Proofs.Source.Expansion

/-!
# Snippets of code

A snippet is a sequence of lexemes, plain strings and interpolated strings, written with one blank between
each two. Its brackets need not match; those inside the holes of interpolated strings do.

The main statement, `firstSeen_identifiers`, says that the identifiers of a snippet are its words and those of
its holes, each once, in the order in which they are first seen. Nothing in a string, in the text of an
interpolated string or in the format of a hole counts. Whether the brackets of the snippet match decides
which scanner reads it; the two agree because each is a `Reads`.
-/

namespace TypeDoctrine.Source

/-! ## The grammar -/

/-- Code inside a hole: its brackets match and it has no colon. -/
inductive Code where
  | nil
  | word (w : Ident) (rest : Code)
  | number (n : Number) (rest : Code)
  | mark (m : Mark) (ne_colon : m.char ≠ ':') (rest : Code)
  | group (b : Bracket) (inner rest : Code)

/-- The format of a hole. -/
structure Format where
  chars : List Char
  isAlphanum : ∀ c ∈ chars, c.isAlphanum = true

/-- A printable character of ASCII, the blank included. -/
def isPrintable (c : Char) : Bool :=
  0x20 ≤ c.toNat && c.toNat ≤ 0x7E

/-- A part of an interpolated string: a character of its text, a doubled brace, or a hole. -/
inductive Part where
  | literal (c : Char) (isPrintable : isPrintable c = true) (ne : c ≠ '"' ∧ c ≠ '\\' ∧ c ≠ '{' ∧ c ≠ '}')
  | openBrace
  | closeBrace
  | hole (e : Code) (format : Option Format)

/-- The text of a plain string. -/
structure Plain where
  chars : List Char
  isPrintable : ∀ c ∈ chars, isPrintable c = true
  ne : ∀ c ∈ chars, c ≠ '"' ∧ c ≠ '\\'

/-- A piece of a snippet. -/
inductive Piece where
  | lexeme (x : Lexeme)
  | string (s : Plain)
  | interpolated (parts : List Part)

/-! ## How snippets are written -/

/-- Texts with one blank between each two. -/
def spaced (texts : List (List Char)) : List Char :=
  [' '].intercalate texts

namespace Code

/-- The lexemes of code. -/
def lexemes : Code → List Lexeme
  | .nil => []
  | .word w rest => .word w :: rest.lexemes
  | .number n rest => .number n :: rest.lexemes
  | .mark m _ rest => .mark m :: rest.lexemes
  | .group b inner rest => .opening b :: (inner.lexemes ++ .closing b :: rest.lexemes)

/-- How code is written. -/
def text (e : Code) : List Char :=
  spaced (e.lexemes.map Lexeme.text)

end Code

/-- How a part is written. -/
def Part.text : Part → List Char
  | .literal c _ _ => [c]
  | .openBrace => ['{', '{']
  | .closeBrace => ['}', '}']
  | .hole e none => '{' :: ' ' :: (e.text ++ [' ', '}'])
  | .hole e (some format) => '{' :: ' ' :: (e.text ++ ' ' :: ':' :: (format.chars ++ [' ', '}']))

/-- How a piece is written. -/
def Piece.text : Piece → List Char
  | .lexeme x => x.text
  | .string s => '"' :: (s.chars ++ ['"'])
  | .interpolated parts => '$' :: '"' :: (parts.flatMap Part.text ++ ['"'])

/-- How a snippet is written. -/
def snippet (ps : List Piece) : String :=
  String.ofList (spaced (ps.map Piece.text))

/-! ## The words of a snippet -/

/-- The words of code. -/
def Code.words : Code → List String
  | .nil => []
  | .word w rest => String.ofList (w.first :: w.rest) :: rest.words
  | .number _ rest => rest.words
  | .mark _ _ rest => rest.words
  | .group _ inner rest => inner.words ++ rest.words

/-- The words of a part: those of a hole. -/
def Part.words : Part → List String
  | .hole e _ => e.words
  | _ => []

/-- The words of a piece: itself, or those in its holes. -/
def Piece.words : Piece → List String
  | .lexeme (.word w) => [String.ofList (w.first :: w.rest)]
  | .interpolated parts => parts.flatMap Part.words
  | _ => []

/-- `distinct` holds each element of `l` once, in the order in which they are first seen there. -/
structure FirstSeen (l distinct : List String) : Prop where
  mem : ∀ a, a ∈ distinct ↔ a ∈ l
  nodup : distinct.Nodup
  order : distinct.Pairwise fun a b => l.idxOf a < l.idxOf b

/-! ## Blanks -/

/-- Texts with a blank before each. -/
def led (texts : List (List Char)) : List Char :=
  texts.flatMap (' ' :: ·)

theorem led_cons (t : List Char) (texts : List (List Char)) : led (t :: texts) = ' ' :: (t ++ led texts) :=
  rfl

theorem led_append (texts more : List (List Char)) : led (texts ++ more) = led texts ++ led more :=
  List.flatMap_append

theorem spaced_cons (t : List Char) (texts : List (List Char)) : spaced (t :: texts) = t ++ led texts := by
  induction texts generalizing t with
  | nil => simp [spaced, led]
  | cons u texts ih =>
    have hu : spaced (t :: u :: texts) = t ++ ' ' :: spaced (u :: texts) := by
      simp [spaced, List.intercalate_cons_cons]
    rw [hu, ih, led_cons]

theorem ends_led (texts : List (List Char)) : Ends (led texts) := by
  cases texts with
  | nil => exact nofun
  | cons t texts =>
    intro c hc
    exact (Option.some.inj hc).symm

/-- Code after a blank: a blank before each lexeme, and one blank if there is none. -/
theorem Code.cons_text (e : Code) :
    ' ' :: e.text = led (e.lexemes.map Lexeme.text) ∨ e.lexemes = [] ∧ ' ' :: e.text = [' '] := by
  unfold Code.text
  cases e.lexemes with
  | nil => exact .inr ⟨rfl, rfl⟩
  | cons x xs => exact .inl (by rw [List.map_cons, spaced_cons, led_cons])

/-! ## Expanding a snippet -/

theorem isInert_of_isPlainPart {c : Char} (h : isPlainPart c = true) : isInert c = true :=
  forall_isPlainPart (p := fun c => isInert c = true) (by decide) h

theorem isInert_of_mem_marks {c : Char} (h : c ∈ marks) (hc : c ≠ ':') : isInert c = true :=
  forall_mem_marks (p := fun c => c ≠ ':' → isInert c = true) (by decide) h hc

theorem isInert_blank : ∀ c ∈ [' '], isInert c = true :=
  List.forall_mem_singleton.2 (by decide)

/-- A text without brackets and colons is taken behind its blank. -/
theorem splitHole_led_cons {t : List Char} (ht : ∀ c ∈ t, isInert c = true) (texts : List (List Char))
    (depth : Nat) (rest : List Char) :
    splitHole depth false false (led (t :: texts) ++ rest) =
      Prod.map (' ' :: t ++ ·) id (splitHole depth false false (led texts ++ rest)) := by
  have hcons : ∀ c ∈ ' ' :: t, isInert c = true := List.forall_mem_cons.2 ⟨by decide, ht⟩
  rw [led_cons, ← List.cons_append, List.append_assoc, splitHole_append_of_isInert hcons]

/-- Code inside a hole is taken whole, at any depth. -/
theorem splitHole_led (e : Code) (depth : Nat) (rest : List Char) :
    splitHole depth false false (led (e.lexemes.map Lexeme.text) ++ rest) =
      Prod.map (led (e.lexemes.map Lexeme.text) ++ ·) id (splitHole depth false false rest) := by
  induction e generalizing depth rest with
  | nil => rfl
  | word w e ih =>
    have hw : ∀ c ∈ (Lexeme.word w).text, isInert c = true := List.forall_mem_cons.2
      ⟨isInert_of_isPlainPart (isPlainPart_of_isStart w.first_isStart),
        fun c hc => isInert_of_isPlainPart (w.rest_isPart c hc)⟩
    simp only [Code.lexemes, List.map_cons]
    rw [splitHole_led_cons hw, ih]
    simp [Prod.map, led_cons]
  | number n e ih =>
    have hn : ∀ c ∈ (Lexeme.number n).text, isInert c = true := List.forall_mem_cons.2
      ⟨isInert_of_isPlainPart (isPlainPart_of_isDigit n.first_isDigit),
        fun c hc => isInert_of_isPlainPart (isPlainPart_of_isDigit (n.rest_isDigit c hc))⟩
    simp only [Code.lexemes, List.map_cons]
    rw [splitHole_led_cons hn, ih]
    simp [Prod.map, led_cons]
  | mark m hm e ih =>
    have hc : ∀ c ∈ (Lexeme.mark m).text, isInert c = true := by
      simpa [Lexeme.text] using isInert_of_mem_marks m.mem hm
    simp only [Code.lexemes, List.map_cons]
    rw [splitHole_led_cons hc, ih]
    simp [Prod.map, led_cons]
  | group b inner e ihi ih =>
    -- the brackets raise the depth by one for what is between them
    have hblank : isInert ' ' = true := by decide
    simp only [Code.lexemes, List.map_cons, List.map_append, led_cons, led_append, Lexeme.text, List.append_assoc,
      List.cons_append, List.nil_append]
    rw [splitHole_cons_of_isInert hblank, splitHole_opener, ihi, splitHole_cons_of_isInert hblank,
      splitHole_closer, ih]
    simp [Prod.map]

/-- The blank before the code of a hole belongs to it. -/
theorem splitHole_text (e : Code) (rest : List Char) :
    splitHole 0 false false (' ' :: e.text ++ rest) =
      Prod.map (' ' :: e.text ++ ·) id (splitHole 0 false false rest) := by
  rcases e.cons_text with h | ⟨-, h⟩
  · rw [h]
    exact splitHole_led e 0 rest
  · rw [h]
    exact splitHole_append_of_isInert isInert_blank 0 rest

/-- The holes of a part, as the body of an interpolated string gives them. -/
def Part.holes : Part → List (List Char)
  | .hole e _ => [' ' :: e.text ++ [' ']]
  | _ => []

theorem splitHoles_part (p : Part) (rest : List Char) :
    splitHoles false (p.text ++ rest) = Prod.map (p.holes ++ ·) id (splitHoles false rest) := by
  cases p with
  | literal c _ hc => exact splitHoles_literal hc rest
  | openBrace => exact splitHoles_escaped (.inl rfl) rest
  | closeBrace => exact splitHoles_escaped (.inr rfl) rest
  | hole e format =>
    cases format with
    | none =>
      refine splitHoles_hole ?_
      have h := splitHole_text e ([' '] ++ '}' :: rest)
      rw [splitHole_append_of_isInert isInert_blank, splitHole_end] at h
      simpa [Prod.map] using h
    | some format =>
      refine splitHoles_hole ?_
      have hformat : ∀ c ∈ format.chars ++ [' '], isInert c = true := by
        intro c hc
        rcases List.mem_append.1 hc with hc | hc
        · exact isInert_of_isPlainPart (by simp [isPlainPart, format.isAlphanum c hc])
        · exact isInert_blank c hc
      have h := splitHole_text e ([' '] ++ ':' :: (format.chars ++ [' '] ++ '}' :: rest))
      rw [splitHole_append_of_isInert isInert_blank, splitHole_colon, splitHole_format hformat] at h
      simpa [Prod.map] using h

theorem splitHoles_parts (parts : List Part) (rest : List Char) :
    splitHoles false (parts.flatMap Part.text ++ '"' :: rest) = (parts.flatMap Part.holes, rest) := by
  induction parts with
  | nil => exact splitHoles_end rest
  | cons p parts ih =>
    rw [List.flatMap_cons, List.append_assoc, splitHoles_part, ih]
    rfl

theorem isPlain_led (xs : List Lexeme) : ∀ c ∈ led (xs.map Lexeme.text), isPlain c = true := by
  intro c hc
  obtain ⟨t, ht, hc⟩ := List.mem_flatMap.1 hc
  obtain ⟨x, -, rfl⟩ := List.mem_map.1 ht
  rcases List.mem_cons.1 hc with rfl | hc
  · decide
  · exact (x.isPlain_text c hc).1

theorem Code.isPlain_text (e : Code) : ∀ c ∈ ' ' :: e.text, isPlain c = true := by
  rcases e.cons_text with h | ⟨-, h⟩
  · rw [h]
    exact isPlain_led e.lexemes
  · rw [h]
    exact List.forall_mem_singleton.2 (by decide)

theorem Part.not_mem_holes (p : Part) : ∀ hole ∈ p.holes, '$' ∉ hole := by
  cases p with
  | hole e format =>
    intro hole hmem hd
    obtain rfl := List.mem_singleton.1 hmem
    rcases List.mem_append.1 hd with hd | hd
    · exact absurd (e.isPlain_text _ hd) (by decide)
    · exact absurd hd (by decide)
  | _ => exact nofun

/-- A hole as it stands in expanded code. -/
def bracketed (hole : List Char) : List Char :=
  '(' :: hole ++ [')', ' ']

/-- What is left of a piece when interpolated strings are expanded. -/
def Piece.expanded : Piece → List Char
  | .interpolated parts => ' ' :: (parts.flatMap Part.holes).flatMap bracketed
  | p => p.text

theorem expandFrom_piece (p : Piece) (rest : List Char) :
    expandFrom false (p.text ++ rest) = p.expanded ++ expandFrom false rest := by
  cases p with
  | lexeme x => exact expandFrom_append (fun c hc => (x.isPlain_text c hc).1) rest
  | string s =>
    have h := expandFrom_string s.ne rest
    simpa [Piece.text, Piece.expanded] using h
  | interpolated parts =>
    have hholes := splitHoles_parts parts rest
    have hopen : interpolationBody? ('$' :: '"' :: (parts.flatMap Part.text ++ '"' :: rest)) =
        some (false, parts.flatMap Part.text ++ '"' :: rest) := rfl
    have h := expandFrom_interpolation false hopen hholes
    -- a hole of simple code has no string in it, so nothing is left to expand there
    have hexpand : (parts.flatMap Part.holes).flatMap (fun hole => '(' :: expand hole ++ [')', ' ']) =
        (parts.flatMap Part.holes).flatMap bracketed := by
      refine congrArg List.flatten (List.map_congr_left fun hole hmem => ?_)
      obtain ⟨p, -, hmem⟩ := List.mem_flatMap.1 hmem
      rw [expand_of_not_mem (p.not_mem_holes hole hmem)]
      rfl
    rw [hexpand] at h
    simpa [Piece.text, Piece.expanded] using h

theorem expandFrom_led (ps : List Piece) :
    expandFrom false (led (ps.map Piece.text)) = led (ps.map Piece.expanded) := by
  induction ps with
  | nil => simp [led, expandFrom]
  | cons p ps ih =>
    rw [List.map_cons, led_cons, expandFrom_cons (by decide), expandFrom_piece, ih]
    rfl

theorem expandFrom_spaced (ps : List Piece) :
    expandFrom false (spaced (ps.map Piece.text)) = spaced (ps.map Piece.expanded) := by
  cases ps with
  | nil => simp [spaced, expandFrom]
  | cons p ps => rw [List.map_cons, spaced_cons, expandFrom_piece, expandFrom_led, List.map_cons, spaced_cons]

theorem Piece.expanded_of_not_mem {p : Piece} (h : '$' ∉ p.text) : p.expanded = p.text := by
  cases p with
  | lexeme x => rfl
  | string s => rfl
  | interpolated parts => exact absurd List.mem_cons_self h

theorem mem_spaced {texts : List (List Char)} {t : List Char} {c : Char} (ht : t ∈ texts) (hc : c ∈ t) :
    c ∈ spaced texts := by
  cases texts with
  | nil => exact absurd ht List.not_mem_nil
  | cons u texts =>
    rw [spaced_cons, List.mem_append]
    rcases List.mem_cons.1 ht with rfl | ht
    · exact .inl hc
    · exact .inr (List.mem_flatMap.2 ⟨t, ht, List.mem_cons_of_mem _ hc⟩)

/-- Without a dollar sign there is no interpolated string, so leaving the text as it is expands it. -/
theorem expand_spaced (ps : List Piece) :
    expand (spaced (ps.map Piece.text)) = spaced (ps.map Piece.expanded) := by
  by_cases hd : '$' ∈ spaced (ps.map Piece.text)
  · rw [expand, if_pos (by simpa using hd), expandFrom_spaced]
  · have hsame : ps.map Piece.expanded = ps.map Piece.text := by
      refine List.map_congr_left fun p hp => Piece.expanded_of_not_mem fun h => hd ?_
      exact mem_spaced (List.mem_map_of_mem hp) h
    rw [expand_of_not_mem hd, hsame]

/-! ## Reading a snippet -/

/-- The tokens of a part: those of a hole, in round brackets. -/
def Part.tokens : Part → List Token
  | .hole e _ => .opening .round :: (e.lexemes.map Lexeme.token ++ [.closing .round])
  | _ => []

/-- The tokens of a piece when interpolated strings are expanded. -/
def Piece.tokens : Piece → List Token
  | .lexeme x => [x.token]
  | .string _ => [.other]
  | .interpolated parts => parts.flatMap Part.tokens

theorem ends_cons (rest : List Char) : Ends (' ' :: rest) := by
  intro c hc
  exact (Option.some.inj hc).symm

theorem ends_append {cs rest : List Char} (h : Ends cs) (hr : Ends rest) : Ends (cs ++ rest) := by
  cases cs with
  | nil => exact hr
  | cons c cs => exact h

namespace Reads

variable {R : Type} {run : List Char → R} {add : Token → R → R}

theorem led_lexemes (h : Reads run add) (xs : List Lexeme) {rest : List Char} (hr : Ends rest) :
    run (led (xs.map Lexeme.text) ++ rest) = (xs.map Lexeme.token).foldr add (run rest) := by
  induction xs with
  | nil => rfl
  | cons x xs ih =>
    rw [List.map_cons, led_cons, List.cons_append, h.blank, List.append_assoc,
      h.lexeme x (ends_append (ends_led _) hr), ih]
    rfl

theorem code (h : Reads run add) (e : Code) {rest : List Char} (hr : Ends rest) :
    run (' ' :: e.text ++ rest) = (e.lexemes.map Lexeme.token).foldr add (run rest) := by
  rcases e.cons_text with ht | ⟨hn, ht⟩
  · rw [ht]
    exact h.led_lexemes e.lexemes hr
  · rw [ht, hn]
    exact h.blank rest

theorem part (h : Reads run add) (p : Part) (rest : List Char) :
    run (p.holes.flatMap bracketed ++ rest) = p.tokens.foldr add (run rest) := by
  cases p with
  | hole e format =>
    have hopen := h.lexeme (.opening .round) (ends_cons (e.text ++ ' ' :: ')' :: ' ' :: rest))
    have hcode := h.code e (ends_cons (')' :: ' ' :: rest))
    have hclose := h.lexeme (.closing .round) (ends_cons rest)
    simp only [Lexeme.text, Lexeme.token, Bracket.opener, Bracket.closer, List.cons_append, List.nil_append]
      at hopen hcode hclose
    simp only [Part.holes, Part.tokens, bracketed, List.flatMap_cons, List.flatMap_nil, List.append_nil,
      List.cons_append, List.append_assoc, List.nil_append, List.foldr_cons, List.foldr_append, List.foldr_nil]
    rw [hopen, hcode, h.blank, hclose, h.blank]
  | _ => rfl

theorem piece (h : Reads run add) (p : Piece) {rest : List Char} (hr : Ends rest) :
    run (p.expanded ++ rest) = p.tokens.foldr add (run rest) := by
  cases p with
  | lexeme x => exact h.lexeme x hr
  | string s =>
    have hne : ∀ c ∈ s.chars, c ≠ '"' ∧ c ≠ '\\' ∧ c ≠ '\r' := by
      intro c hc
      refine ⟨(s.ne c hc).1, (s.ne c hc).2, ?_⟩
      rintro rfl
      exact absurd (s.isPrintable _ hc) (by decide)
    simpa [Piece.expanded, Piece.text, Piece.tokens] using h.string hne hr
  | interpolated parts =>
    simp only [Piece.expanded, Piece.tokens, List.cons_append]
    rw [h.blank]
    induction parts with
    | nil => rfl
    | cons p parts ih =>
      rw [List.flatMap_cons, List.flatMap_append, List.append_assoc, h.part, ih, List.flatMap_cons,
        List.foldr_append]

theorem led_pieces (h : Reads run add) (ps : List Piece) :
    run (led (ps.map Piece.expanded)) = (ps.flatMap Piece.tokens).foldr add (run []) := by
  induction ps with
  | nil => rfl
  | cons p ps ih =>
    rw [List.map_cons, led_cons, h.blank, h.piece p (ends_led _), ih, List.flatMap_cons, List.foldr_append]

/-- A scanner that reads lexemes and strings reads a snippet. -/
theorem snippet (h : Reads run add) (ps : List Piece) :
    run (spaced (ps.map Piece.expanded)) = (ps.flatMap Piece.tokens).foldr add (run []) := by
  cases ps with
  | nil => rfl
  | cons p ps =>
    rw [← h.blank, List.map_cons, spaced_cons, ← led_cons]
    exact h.led_pieces (p :: ps)

end Reads

theorem foldr_map_cons (ts : List Token) : ts.foldr (fun t => Option.map (t :: ·)) (some []) = some ts := by
  induction ts with
  | nil => rfl
  | cons t ts ih => rw [List.foldr_cons, ih, Option.map_some]

theorem foldr_names (ts : List Token) :
    ts.foldr (fun t names => Token.names [t] ++ names) [] = Token.names ts := by
  induction ts with
  | nil => rfl
  | cons t ts ih =>
    rw [List.foldr_cons, ih]
    exact List.filterMap_append.symm

/-- No lexeme starts with a byte order mark. -/
theorem Lexeme.head?_append_ne (x : Lexeme) (rest : List Char) : (x.text ++ rest).head? ≠ some '\uFEFF' := by
  have hne : ∀ c ∈ x.text, c ≠ '\uFEFF' :=
    Lexeme.forall_mem_text (by decide) (by decide) (fun b => by cases b <;> decide) x
  obtain ⟨c, cs, hx, -⟩ := x.text_eq_cons
  rw [hx] at hne ⊢
  exact fun h => hne c List.mem_cons_self (Option.some.inj h)

theorem head?_spaced_ne (ps : List Piece) : (spaced (ps.map Piece.expanded)).head? ≠ some '\uFEFF' := by
  cases ps with
  | nil => decide
  | cons p ps =>
    rw [List.map_cons, spaced_cons]
    cases p with
    | lexeme x => exact x.head?_append_ne _
    | string s => exact fun h => absurd (Option.some.inj h) (by decide)
    | interpolated parts => exact fun h => absurd (Option.some.inj h) (by decide)

/-- If the brackets match, the tokens are asked, and if not, the plain scan is; what both give is the answer. -/
theorem mentions_eq {cs : List Char} {names : List (List Char)} (hhead : cs.head? ≠ some '\uFEFF')
    (hscan : ∀ ts, scan? cs = some ts → Token.names ts = names) (hwords : plainWords cs = names) :
    mentions cs = names := by
  unfold mentions tokens?
  simp only [beq_eq_false_iff_ne.2 hhead, Bool.false_eq_true, if_false]
  split
  · next ts hts =>
    split at hts
    · next us hus =>
      split at hts
      · obtain rfl := Option.some.inj hts
        exact hscan us hus
      · exact absurd hts (by simp)
    · exact absurd hts (by simp)
  · exact hwords

/-- The names that a snippet mentions, whichever scanner reads it. -/
theorem mentions_snippet (ps : List Piece) :
    mentions (spaced (ps.map Piece.expanded)) = Token.names (ps.flatMap Piece.tokens) := by
  have hscan := reads_scan?.snippet ps
  have hwords := reads_plainWords.snippet ps
  rw [show scan? [] = some [] by simp [scan?_eq, dropSpacing.eq_def], foldr_map_cons] at hscan
  rw [show plainWords [] = [] by simp [plainWords], foldr_names] at hwords
  refine mentions_eq (head?_spaced_ne ps) (fun ts hts => ?_) hwords
  rw [hscan] at hts
  rw [← Option.some.inj hts]

/-! ## The words among the tokens -/

theorem names_append (ts us : List Token) : Token.names (ts ++ us) = Token.names ts ++ Token.names us :=
  List.filterMap_append

theorem names_flatMap {α : Type} (l : List α) (f : α → List Token) :
    Token.names (l.flatMap f) = l.flatMap fun a => Token.names (f a) :=
  List.filterMap_flatMap

/-- Brackets are no names. -/
theorem names_bracketed (b c : Bracket) (ts us : List Token) :
    Token.names (.opening b :: (ts ++ .closing c :: us)) = Token.names ts ++ Token.names us :=
  names_append ts (.closing c :: us)

theorem Code.names_eq (e : Code) :
    (Token.names (e.lexemes.map Lexeme.token)).map String.ofList = e.words := by
  induction e with
  | nil => rfl
  | word w e ih => exact congrArg (_ :: ·) ih
  | number n e ih => exact ih
  | mark m _ e ih => exact ih
  | group b inner e ihi ih =>
    simp only [Code.lexemes, Code.words, List.map_cons, List.map_append, Lexeme.token]
    rw [names_bracketed, List.map_append, ihi, ih]

theorem Piece.names_eq (p : Piece) : (Token.names p.tokens).map String.ofList = p.words := by
  cases p with
  | lexeme x => cases x <;> rfl
  | string s => rfl
  | interpolated parts =>
    simp only [Piece.tokens, Piece.words, names_flatMap, List.map_flatMap]
    congr 1
    funext p
    cases p with
    | hole e format =>
      simp only [Part.tokens, Part.words]
      rw [names_bracketed, List.map_append, e.names_eq]
      exact List.append_nil _
    | _ => rfl

/-! ## First occurrences -/

/-- Leaving out elements keeps the order in which others are first seen. -/
theorem idxOf_lt_of_filter {l : List String} {p : String → Bool} {a b : String} (ha : p a = true) (hb : p b = true)
    (h : (l.filter p).idxOf a < (l.filter p).idxOf b) : l.idxOf a < l.idxOf b := by
  induction l with
  | nil => exact h
  | cons c l ih =>
    by_cases hc : p c = true
    · rw [List.filter_cons_of_pos hc] at h
      simp only [List.idxOf_cons] at h ⊢
      cases hca : c == a <;> cases hcb : c == b <;> simp only [hca, hcb, cond_true, cond_false] at h ⊢
      · exact Nat.succ_lt_succ (ih (Nat.lt_of_succ_lt_succ h))
      · exact absurd h (Nat.not_lt_zero _)
      · exact Nat.succ_pos _
      · exact absurd h (Nat.lt_irrefl _)
    · have hca : (c == a) = false := beq_eq_false_iff_ne.2 fun e => hc (e ▸ ha)
      have hcb : (c == b) = false := beq_eq_false_iff_ne.2 fun e => hc (e ▸ hb)
      rw [List.filter_cons_of_neg hc] at h
      simp only [List.idxOf_cons, hca, hcb, cond_false]
      exact Nat.succ_lt_succ (ih h)

theorem firstSeen_eraseDups : ∀ l : List String, FirstSeen l l.eraseDups
  | [] => ⟨fun _ => Iff.rfl, List.nodup_nil, .nil⟩
  | a :: l => by
    have ih := firstSeen_eraseDups (l.filter fun b => !b == a)
    have hne : ∀ b ∈ (l.filter fun b => !b == a).eraseDups, b ≠ a := by
      intro b hb
      simpa using (List.mem_filter.1 ((ih.mem b).1 hb)).2
    -- what is left without `a` stands one place further on behind it
    have hidx : ∀ b ∈ (l.filter fun b => !b == a).eraseDups, (a :: l).idxOf b = l.idxOf b + 1 := by
      intro b hb
      rw [List.idxOf_cons, beq_eq_false_iff_ne.2 (hne b hb).symm, cond_false]
    refine ⟨fun b => List.mem_eraseDups, ?_, ?_⟩
    · rw [List.eraseDups_cons, List.nodup_cons]
      exact ⟨fun ha => hne a ha rfl, ih.nodup⟩
    · rw [List.eraseDups_cons, List.pairwise_cons]
      constructor
      · intro b hb
        rw [hidx b hb, List.idxOf_cons_self]
        exact Nat.succ_pos _
      · refine ih.order.imp_of_mem fun {b c} hb hc hlt => ?_
        rw [hidx b hb, hidx c hc]
        exact Nat.succ_lt_succ (idxOf_lt_of_filter (by simp [hne b hb]) (by simp [hne c hc]) hlt)
termination_by l => l.length
decreasing_by exact Nat.lt_succ_of_le (List.length_filter_le _ _)

theorem eraseDups_map_ofList :
    ∀ l : List (List Char), l.eraseDups.map String.ofList = (l.map String.ofList).eraseDups
  | [] => rfl
  | a :: l => by
    have hsame : ((fun b => !b == String.ofList a) ∘ String.ofList) = fun b => !b == a := by
      funext b
      rw [Function.comp, Bool.eq_iff_iff]
      simp [String.ofList_inj]
    rw [List.eraseDups_cons, List.map_cons, List.map_cons, List.eraseDups_cons,
      eraseDups_map_ofList (l.filter fun b => !b == a), List.filter_map, hsame]
termination_by l => l.length
decreasing_by exact Nat.lt_succ_of_le (List.length_filter_le _ _)

/-- The identifiers of a snippet are its words and those of its holes, in the order in which they are first
seen. -/
theorem firstSeen_identifiers (ps : List Piece) :
    FirstSeen (ps.flatMap Piece.words) (identifiers (snippet ps)) := by
  have hwords : (Token.names (ps.flatMap Piece.tokens)).map String.ofList = ps.flatMap Piece.words := by
    rw [names_flatMap, List.map_flatMap]
    congr 1
    funext p
    exact p.names_eq
  unfold identifiers snippet
  rw [String.toList_ofList, expand_spaced, mentions_snippet, eraseDups_map_ofList, hwords]
  exact firstSeen_eraseDups _

/-- A stray bracket, and a hole with a format between a doubled brace and text. -/
example :
    let total : Ident := ⟨'T', ['o', 't', 'a', 'l'], by decide, List.all_eq_true.1 rfl⟩
    let money : Format := ⟨['N', '2'], List.all_eq_true.1 rfl⟩
    let ps : List Piece := [.lexeme (.closing .round), .interpolated
      [.openBrace, .hole (.group .square (.word total .nil) .nil) (some money), .closeBrace]]
    snippet ps = ") $\"{{{ [ Total ] :N2 }}}\"" ∧ ps.flatMap Piece.words = ["Total"] := by
  decide +kernel

end TypeDoctrine.Source
