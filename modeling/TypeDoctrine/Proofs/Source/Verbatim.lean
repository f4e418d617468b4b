import Mathlib.Data.List.TakeWhile
import TypeDoctrine.Proofs.Source.Snippet
import TypeDoctrine.Proofs.Source.StringEnd

/-!
# Verbatim strings

A listing is a sequence of lexemes and verbatim strings, written with one blank between each two. In a verbatim
string a quote is doubled and a backslash is a character like others; so the expansion of interpolated strings
takes it (`expand_listing`), but to both scanners a backslash guards the character that follows it.

Where no quote of a string is guarded that way, a doubled quote closes one string and opens the next, and the
identifiers of the listing are its words. A string with a guarded quote is read as code, or code as a string; no such
string is safe in every listing (`seesWords_listing`). `trailing_backslash_hides_code` is the plain case: the closing
quote is guarded.
-/

namespace TypeDoctrine.Source

open TypeDoctrine.Text (isWordStart)

/-! ## The grammar -/

/-- The text of a verbatim string. -/
structure Verbatim where
  chars : List Char
  isPrintable : ∀ c ∈ chars, isPrintable c = true

/-- A text with every quote doubled. -/
def doubled (cs : List Char) : List Char :=
  cs.flatMap fun c => if c = '"' then ['"', '"'] else [c]

/-- Code, or a verbatim string. -/
inductive Item where
  | lexeme (x : Lexeme)
  | verbatim (s : Verbatim)

def Item.text : Item → List Char
  | .lexeme x => x.text
  | .verbatim s => '@' :: '"' :: (doubled s.chars ++ ['"'])

/-- Items with one blank between each two. -/
def listing (items : List Item) : String :=
  String.ofList (spaced (items.map Item.text))

def Item.words : Item → List String
  | .lexeme (.word w) => [String.ofList (w.first :: w.rest)]
  | _ => []

/-- The identifiers of a listing are its words, none of them from a string, in the order in which they are first
seen. -/
def SeesWords (items : List Item) : Prop :=
  FirstSeen (items.flatMap Item.words) (identifiers (listing items))

/-- No quote of the text, and not its end, comes right after an odd number of backslashes. `odd` tells the same of
the backslashes before the text. -/
def unguarded (odd : Bool) : List Char → Bool
  | [] => !odd
  | c :: rest =>
    if c == '\\' then unguarded (!odd) rest
    else if c == '"' then !odd && unguarded false rest
    else unguarded false rest

/-! ## Backslashes in pairs -/

/-- Induction along a text in which a backslash takes the next character along. -/
theorem backslash_induction {P : List Char → Prop} (nil : P []) (lone : P ['\\'])
    (escape : ∀ c rest, P rest → P ('\\' :: c :: rest)) (char : ∀ c rest, c ≠ '\\' → P rest → P (c :: rest)) :
    ∀ cs, P cs
  | [] => nil
  | [c] => by
    by_cases hc : c = '\\'
    · rw [hc]
      exact lone
    · exact char c [] hc nil
  | c :: d :: rest => by
    by_cases hc : c = '\\'
    · rw [hc]
      exact escape d rest (backslash_induction nil lone escape char rest)
    · exact char c (d :: rest) hc (backslash_induction nil lone escape char (d :: rest))

theorem unguarded_escape (c : Char) (rest : List Char) :
    unguarded false ('\\' :: c :: rest) = (c != '"' && unguarded false rest) := by
  by_cases hc : c = '\\'
  · simp [unguarded, hc]
  · by_cases hq : c = '"' <;> simp [unguarded, hc, hq]

theorem unguarded_char {c : Char} (hc : c ≠ '\\') (rest : List Char) :
    unguarded false (c :: rest) = unguarded false rest := by
  simp [unguarded, hc]

theorem doubled_quote (cs : List Char) : doubled ('"' :: cs) = '"' :: '"' :: doubled cs :=
  rfl

theorem doubled_cons {c : Char} (hc : c ≠ '"') (cs : List Char) : doubled (c :: cs) = c :: doubled cs := by
  simp [doubled, hc]

/-! ## Reading a listing -/

/-- A scanner for names that passes over blanks and at signs, adds a name for each word, and goes on after a string
where the plain scan finds its end. -/
structure Finds (found : List Char → List (List Char) → Prop) : Prop where
  blank : ∀ {rest names}, found rest names → found (' ' :: rest) names
  atSign : ∀ {rest names}, found rest names → found ('@' :: rest) names
  lexeme : ∀ (x : Lexeme) {rest names}, Ends rest → found rest names →
    found (x.text ++ rest) (Token.names [x.token] ++ names)
  string : ∀ {cs names}, (∀ c ∈ (splitLiteral '"' false cs).2.head?, isWordStart c = false) →
    found (splitLiteral '"' false cs).2 names → found ('"' :: cs) names

theorem plainWords_string (cs : List Char) :
    plainWords ('"' :: cs) = plainWords (splitLiteral '"' false cs).2 := by
  rw [plainWords]
  simp

theorem finds_plainWords : Finds fun cs names => plainWords cs = names where
  blank h := (reads_plainWords.blank _).trans h
  atSign h := by
    rw [plainWords]
    simpa using h
  lexeme x _ _ hr h := by rw [plainWords_lexeme x hr, h]
  string _ h := (plainWords_string _).trans h

theorem dropWord_of_head? {cs : List Char} (h : ∀ c ∈ cs.head?, isWordStart c = false) : dropWord cs = cs := by
  cases cs with
  | nil => rfl
  | cons c cs => simp [dropWord, h c rfl]

/-- A quote that opens no string is no token. -/
theorem nextToken?_openQuote {cs : List Char} (h : afterQuoted? .text cs = none) : nextToken? ('"' :: cs) = none := by
  have hlit : afterLiteral? ('"' :: cs) = none := afterLiteral?_of_not_isDigit h (by decide)
  have hpunct : afterPunctuation? ('"' :: cs) = none := by
    have hquote : '"' ∉ punctuation := by decide
    simp [afterPunctuation?, hquote]
  have hname : splitNameToken? ('"' :: cs) = none := by
    have hstart : isWordStart '"' = false := by decide
    simp [splitNameToken?, splitName?, splitWord?, hstart]
  have hbracket : bracketToken? '"' = none := rfl
  unfold nextToken?
  simp only [documentation?_of_ne cs (show '"' ≠ '/' by decide), isPrefixOf_errorMark hbracket, List.head?_cons,
    Option.bind_some, hbracket, hlit, hpunct, hname, Option.map_none, Bool.false_eq_true, if_false]

theorem scan?_string (cs : List Char) :
    scan? ('"' :: cs) =
      (afterQuoted? .text cs).bind fun rest => (scan? (dropWord rest)).map (.other :: ·) := by
  cases hq : afterQuoted? .text cs with
  | some rest =>
    have hlit : afterLiteral? ('"' :: cs) = some (dropWord rest) := by
      unfold afterLiteral?
      rw [show afterText? ('"' :: cs) = some rest from hq]
    exact scan?_cons (by decide) (by decide) (nextToken?_literal (by decide) rfl hlit)
  | none =>
    rw [scan?_eq, dropSpacing_of_not_isSpacing cs (by decide) (by decide)]
    simp only [nextToken?_openQuote hq, Option.bind_none]

theorem scan?_atSign (rest : List Char) : scan? ('@' :: rest) = (scan? rest).map (.other :: ·) := by
  have hlit : afterLiteral? ('@' :: rest) = none := afterLiteral?_of_not_isDigit (by simp [afterText?]) (by decide)
  have hpunct : afterPunctuation? ('@' :: rest) = some rest := by
    have hat : '@' ∈ punctuation := by decide
    simp [afterPunctuation?, hat]
  exact scan?_cons (by decide) (by decide) (nextToken?_punctuation (by decide) rfl hlit hpunct)

theorem finds_scan? : Finds fun cs names => ∀ ts, scan? cs = some ts → Token.names ts = names where
  blank h ts hts := h ts (by rwa [scan?_blank] at hts)
  atSign h ts hts := by
    rw [scan?_atSign] at hts
    obtain ⟨us, hus, rfl⟩ := Option.map_eq_some_iff.1 hts
    exact h us hus
  lexeme x rest names hr h ts hts := by
    rw [reads_scan?.lexeme x hr] at hts
    obtain ⟨us, hus, rfl⟩ := Option.map_eq_some_iff.1 hts
    rw [← h us hus]
    exact names_append [x.token] us
  string hhead h ts hts := by
    rw [scan?_string] at hts
    obtain ⟨rest, hrest, hts⟩ := Option.bind_eq_some_iff.1 hts
    obtain ⟨us, hus, rfl⟩ := Option.map_eq_some_iff.1 hts
    rw [splitLiteral_of_afterQuoted? hrest] at hhead h
    rw [dropWord_of_head? hhead] at hus
    exact h us hus

theorem Finds.verbatim {found : List Char → List (List Char) → Prop} (h : Finds found) {cs rest : List Char}
    {names : List (List Char)} (hcs : unguarded false cs = true) (hends : Ends rest) (hrest : found rest names) :
    found ('"' :: (doubled cs ++ '"' :: rest)) names := by
  have hend : (∀ c ∈ (splitLiteral '"' false (doubled cs ++ '"' :: rest)).2.head?, isWordStart c = false) ∧
      found (splitLiteral '"' false (doubled cs ++ '"' :: rest)).2 names := by
    induction cs using backslash_induction with
    | nil =>
      rw [show doubled [] ++ '"' :: rest = '"' :: rest from rfl, splitLiteral_quote (by decide)]
      refine ⟨fun c hc => ?_, hrest⟩
      obtain rfl := hends c hc
      decide
    | lone => exact absurd hcs (by decide)
    | escape c cs ih =>
      rw [unguarded_escape, Bool.and_eq_true, bne_iff_ne] at hcs
      rw [doubled_cons (by decide), doubled_cons hcs.1, List.cons_append, List.cons_append, splitLiteral_escape]
      exact ih hcs.2
    | char c cs hc ih =>
      rw [unguarded_char hc] at hcs
      by_cases hq : c = '"'
      · rw [hq, doubled_quote, List.cons_append, splitLiteral_quote (by decide)]
        refine ⟨fun d hd => ?_, h.string (ih hcs).1 (ih hcs).2⟩
        obtain rfl := Option.some.inj hd
        decide
      · rw [doubled_cons hq, List.cons_append, splitLiteral_char hq hc]
        exact ih hcs
  exact h.string hend.1 hend.2

/-- The names of an item: none in a string. -/
def Item.names : Item → List (List Char)
  | .lexeme x => Token.names [x.token]
  | .verbatim _ => []

theorem Item.names_eq (i : Item) : i.names.map String.ofList = i.words := by
  cases i with
  | lexeme x => cases x <;> rfl
  | verbatim s => rfl

namespace Finds

variable {found : List Char → List (List Char) → Prop}

theorem item (h : Finds found) (i : Item) (hi : ∀ s, i = .verbatim s → unguarded false s.chars = true)
    {rest : List Char} {names : List (List Char)} (hends : Ends rest) (hrest : found rest names) :
    found (i.text ++ rest) (i.names ++ names) := by
  cases i with
  | lexeme x => exact h.lexeme x hends hrest
  | verbatim s =>
    have hs := h.atSign (h.verbatim (hi s rfl) hends hrest)
    simpa [Item.text, Item.names] using hs

theorem led_items (h : Finds found) (hnil : found [] []) (items : List Item)
    (hitems : ∀ s, .verbatim s ∈ items → unguarded false s.chars = true) :
    found (led (items.map Item.text)) (items.flatMap Item.names) := by
  induction items with
  | nil => exact hnil
  | cons i items ih =>
    rw [List.map_cons, led_cons, List.flatMap_cons]
    refine h.blank (h.item i ?_ (ends_led _) (ih fun s hs => hitems s (List.mem_cons_of_mem _ hs)))
    rintro s rfl
    exact hitems s List.mem_cons_self

/-- A scanner of this kind finds the names of a listing, if no string of it has a guarded quote. -/
theorem items (h : Finds found) (hnil : found [] []) (items : List Item)
    (hitems : ∀ s, .verbatim s ∈ items → unguarded false s.chars = true) :
    found (spaced (items.map Item.text)) (items.flatMap Item.names) := by
  cases items with
  | nil => exact hnil
  | cons i items =>
    rw [List.map_cons, spaced_cons, List.flatMap_cons]
    refine h.item i ?_ (ends_led _) (h.led_items hnil items fun s hs => hitems s (List.mem_cons_of_mem _ hs))
    rintro s rfl
    exact hitems s List.mem_cons_self

end Finds

/-! ## Expanding a listing -/

/-- Only the quotes of a text are doubled, so the closing quote is the first single one. -/
theorem splitLiteral_doubled (cs : List Char) {rest : List Char} (h : Ends rest) :
    splitLiteral '"' true (doubled cs ++ '"' :: rest) = (doubled cs ++ ['"'], rest) := by
  induction cs with
  | nil =>
    cases rest with
    | nil => rfl
    | cons c rest =>
      obtain rfl := h c rfl
      rfl
  | cons c cs ih =>
    by_cases hq : c = '"'
    · rw [hq, doubled_quote, List.cons_append, List.cons_append, splitLiteral, ih]
      rfl
    · obtain ⟨d, tail, htail⟩ := List.exists_cons_of_ne_nil (l := doubled cs ++ '"' :: rest) (by simp)
      rw [doubled_cons hq, List.cons_append, htail, splitLiteral, ← htail, ih]
      simp [hq]

theorem expandFrom_item (i : Item) {rest : List Char} (h : Ends rest) :
    expandFrom false (i.text ++ rest) = i.text ++ expandFrom false rest := by
  cases i with
  | lexeme x => exact expandFrom_append (fun c hc => (x.isPlain_text c hc).1) rest
  | verbatim s =>
    have hat (cs : List Char) : expandFrom false ('@' :: '"' :: cs) = '@' :: expandFrom true ('"' :: cs) := by
      rw [expandFrom.eq_2, if_neg (by simp), if_neg (by simp), if_neg (by simp)]
      rfl
    have hquote : expandFrom true ('"' :: (doubled s.chars ++ '"' :: rest)) =
        '"' :: (doubled s.chars ++ '"' :: expandFrom false rest) := by
      rw [expandFrom.eq_2]
      simp [splitLiteral_doubled s.chars h]
    simp only [Item.text, List.cons_append, List.append_assoc, List.nil_append]
    rw [hat, hquote]

theorem expandFrom_led_items (items : List Item) :
    expandFrom false (led (items.map Item.text)) = led (items.map Item.text) := by
  induction items with
  | nil => simp [led, expandFrom]
  | cons i items ih =>
    rw [List.map_cons, led_cons, expandFrom_cons (by decide), expandFrom_item i (ends_led _), ih]

/-- A listing has no interpolated string, also where a verbatim string holds a dollar sign. -/
theorem expand_listing (items : List Item) :
    expand (spaced (items.map Item.text)) = spaced (items.map Item.text) := by
  have hloop : expandFrom false (spaced (items.map Item.text)) = spaced (items.map Item.text) := by
    cases items with
    | nil => simp [spaced, expandFrom]
    | cons i items =>
      rw [List.map_cons, spaced_cons, expandFrom_item i (ends_led _), expandFrom_led_items]
  rw [expand, hloop, ite_self]

theorem head?_listing_ne (items : List Item) : (spaced (items.map Item.text)).head? ≠ some '\uFEFF' := by
  cases items with
  | nil => decide
  | cons i items =>
    rw [List.map_cons, spaced_cons]
    cases i with
    | lexeme x => exact x.head?_append_ne _
    | verbatim s => exact fun h => absurd (Option.some.inj h) (by decide)

/-- The names of a listing without guarded quotes, whichever scanner reads it. -/
theorem mentions_listing (items : List Item)
    (h : ∀ s, .verbatim s ∈ items → unguarded false s.chars = true) :
    mentions (spaced (items.map Item.text)) = items.flatMap Item.names := by
  have hscan := finds_scan?.items (by simp [scan?_eq, dropSpacing.eq_def, Token.names]) items h
  have hwords := finds_plainWords.items (by simp [plainWords]) items h
  exact mentions_eq (head?_listing_ne items) hscan hwords

/-- Where there are no tokens, the plain scan is asked. -/
theorem mentions_of_scan?_eq_none {items : List Item} (h : scan? (spaced (items.map Item.text)) = none) :
    mentions (spaced (items.map Item.text)) = plainWords (spaced (items.map Item.text)) := by
  refine mentions_eq (head?_listing_ne items) (fun ts hts => ?_) rfl
  rw [h] at hts
  exact absurd hts (by simp)

theorem mem_identifiers_listing {items : List Item} {w : List Char} :
    String.ofList w ∈ identifiers (listing items) ↔ w ∈ mentions (spaced (items.map Item.text)) := by
  unfold identifiers listing
  rw [String.toList_ofList, expand_listing, List.mem_map]
  constructor
  · rintro ⟨name, hname, he⟩
    rwa [String.ofList_inj.1 he, List.mem_eraseDups] at hname
  · intro h
    exact ⟨w, List.mem_eraseDups.2 h, rfl⟩

/-! ## What a guarded quote hides -/

/-- Text after a string that holds nothing to end another literal or a comment with. -/
def IsCode (tail : List Char) : Prop :=
  ∀ c ∈ tail, isPlainPart c = true ∨ c = ' '

theorem IsCode.notMem {tail : List Char} (h : IsCode tail) {c : Char} (hc : isPlainPart c = false) (hs : c ≠ ' ') :
    c ∉ tail := by
  intro hm
  rcases h c hm with hp | he
  · rw [hp] at hc
    exact absurd hc (by decide)
  · exact hs he

/-- Scanning resumes between two characters of the text `cs`, its closing quote and `tail` to come, or nowhere. -/
def Resumes (tail cs rest : List Char) : Prop :=
  rest = [] ∨ ∃ ds, ds <:+ cs ∧ rest = doubled ds ++ '"' :: tail

theorem Resumes.cons {tail cs rest : List Char} (h : Resumes tail cs rest) (c : Char) :
    Resumes tail (c :: cs) rest := by
  refine h.imp_right ?_
  rintro ⟨ds, hds, he⟩
  exact ⟨ds, hds.trans (List.suffix_cons c cs), he⟩

theorem mem_of_mem_doubled {cs : List Char} {c : Char} (h : c ∈ doubled cs) : c ∈ cs := by
  obtain ⟨d, hd, hc⟩ := List.mem_flatMap.1 h
  split at hc
  · next hq =>
    rw [hq] at hd
    simp only [List.mem_cons, List.not_mem_nil, or_false, or_self] at hc
    rwa [hc]
  · rwa [List.mem_singleton.1 hc]

theorem exists_cons_of_head? {cs tail : List Char} {d : Char}
    (h : (doubled cs ++ '"' :: tail).head? = some d) (hd : d ≠ '"') : ∃ ds, cs = d :: ds := by
  cases cs with
  | nil => exact absurd (Option.some.inj h).symm hd
  | cons c cs =>
    by_cases hq : c = '"'
    · rw [hq] at h
      exact absurd (Option.some.inj h).symm hd
    · rw [doubled_cons hq] at h
      exact ⟨cs, by rw [Option.some.inj h]⟩

section Tail

variable {tail : List Char} (htail : IsCode tail)

include htail

theorem splitLiteral_tail {quote : Char} (hp : isPlainPart quote = false) (hs : quote ≠ ' ') :
    (splitLiteral quote false tail).2 = [] := by
  have hne : ∀ c ∈ tail, c ≠ quote ∧ c ≠ '\\' := by
    intro c hc
    refine ⟨?_, ?_⟩
    · rintro rfl
      exact htail.notMem hp hs hc
    · rintro rfl
      exact htail.notMem (by decide) (by decide) hc
  have h := splitLiteral_append_chars hne []
  rw [List.append_nil] at h
  exact h

/-- A character literal takes doubled quotes as they are. -/
theorem resumes_splitLiteral (cs : List Char) :
    Resumes tail cs (splitLiteral '\'' false (doubled cs ++ '"' :: tail)).2 := by
  have hend : (splitLiteral '\'' false tail).2 = [] := splitLiteral_tail htail (by decide) (by decide)
  induction cs using backslash_induction with
  | nil => exact .inl ((splitLiteral_char (by decide) (by decide) tail).trans hend)
  | lone => exact .inl ((splitLiteral_escape '\'' '"' tail).trans hend)
  | escape c cs ih =>
    have hstep : (splitLiteral '\'' false (doubled ('\\' :: c :: cs) ++ '"' :: tail)).2 =
        (splitLiteral '\'' false (doubled cs ++ '"' :: tail)).2 := by
      rw [doubled_cons (by decide)]
      by_cases hq : c = '"'
      · rw [hq, doubled_quote, List.cons_append, List.cons_append, List.cons_append, splitLiteral_escape,
          splitLiteral_char (by decide) (by decide)]
      · rw [doubled_cons hq, List.cons_append, List.cons_append, splitLiteral_escape]
    rw [hstep]
    exact (ih.cons c).cons '\\'
  | char c cs hc ih =>
    by_cases ha : c = '\''
    · refine .inr ⟨cs, List.suffix_cons _ _, ?_⟩
      rw [ha, doubled_cons (by decide), List.cons_append, splitLiteral_quote (by decide)]
    · have hstep : (splitLiteral '\'' false (doubled (c :: cs) ++ '"' :: tail)).2 =
          (splitLiteral '\'' false (doubled cs ++ '"' :: tail)).2 := by
        by_cases hq : c = '"'
        · rw [hq, doubled_quote, List.cons_append, List.cons_append, splitLiteral_char (by decide) (by decide),
            splitLiteral_char (by decide) (by decide)]
        · rw [doubled_cons hq, List.cons_append, splitLiteral_char ha hc]
      rw [hstep]
      exact ih.cons c

omit htail in
theorem splitComment_cons {c : Char} {rest : List Char} (h : c = '*' → rest.head? ≠ some '/') :
    (splitComment (c :: rest)).2 = (splitComment rest).2 := by
  rw [splitComment]
  rintro d rfl rfl
  exact h rfl rfl

omit htail in
theorem splitComment_of_notMem {cs : List Char} (h : '*' ∉ cs) : (splitComment cs).2 = [] := by
  induction cs with
  | nil => rfl
  | cons c cs ih =>
    obtain ⟨hc, hcs⟩ := not_or.1 (mt List.mem_cons.2 h)
    rw [splitComment_cons fun he => absurd he.symm hc, ih hcs]

theorem resumes_splitComment (cs : List Char) : Resumes tail cs (splitComment (doubled cs ++ '"' :: tail)).2 := by
  induction cs with
  | nil =>
    refine .inl (splitComment_of_notMem fun hm => ?_)
    rcases List.mem_cons.1 hm with hm | hm
    · exact absurd hm (by decide)
    · exact htail.notMem (by decide) (by decide) hm
  | cons c cs ih =>
    by_cases hq : c = '"'
    · rw [hq, doubled_quote, List.cons_append, List.cons_append, splitComment_cons fun hc => absurd hc (by decide),
        splitComment_cons fun hc => absurd hc (by decide)]
      exact ih.cons '"'
    · rw [doubled_cons hq, List.cons_append]
      by_cases hstop : c = '*' ∧ (doubled cs ++ '"' :: tail).head? = some '/'
      · obtain ⟨rfl, hh⟩ := hstop
        obtain ⟨ds, rfl⟩ := exists_cons_of_head? hh (by decide)
        refine .inr ⟨ds, (List.suffix_cons _ _).trans (List.suffix_cons _ _), ?_⟩
        rw [doubled_cons (by decide), List.cons_append, splitComment]
      · rw [splitComment_cons fun hc hh => hstop ⟨hc, hh⟩]
        exact ih.cons c

omit htail in
theorem takeWhile_doubled (cs : List Char) :
    (doubled cs ++ '"' :: tail).takeWhile isPlainPart = cs.takeWhile isPlainPart ∧
      (doubled cs ++ '"' :: tail).dropWhile isPlainPart = doubled (cs.dropWhile isPlainPart) ++ '"' :: tail := by
  have hquote : isPlainPart '"' = false := by decide
  induction cs with
  | nil => simp [doubled, hquote]
  | cons c cs ih =>
    by_cases hq : c = '"'
    · rw [hq, doubled_quote]
      simp [hquote, doubled_quote]
    · by_cases hp : isPlainPart c = true
      · rw [doubled_cons hq]
        simp [hp, ih]
      · rw [List.dropWhile_cons_of_neg hp, doubled_cons hq]
        simp [hp]

/-- A line comment has no end. -/
theorem resumes_line {cs : List Char} (h : '\n' ∉ cs) :
    Resumes tail cs ((doubled cs ++ '"' :: tail).dropWhile (· != '\n')) := by
  refine .inl (List.dropWhile_eq_nil_iff.2 fun c hc => bne_iff_ne.2 ?_)
  rintro rfl
  rcases List.mem_append.1 hc with hc | hc
  · exact h (mem_of_mem_doubled hc)
  · rcases List.mem_cons.1 hc with hc | hc
    · exact absurd hc (by decide)
    · exact htail.notMem (by decide) (by decide) hc

/-- Behind a guarded quote the text is read as code, and its closing quote opens a string that takes what follows. So
no word that is found is longer than the text. -/
theorem length_le_of_mem_plainWords (cs : List Char) (hcs : '\n' ∉ cs) :
    ∀ w ∈ plainWords (doubled cs ++ '"' :: tail), w.length ≤ cs.length := by
  intro w hw
  have hresumes {rest ds : List Char} (hds : ds.length < cs.length) (hn : '\n' ∉ ds) (hr : Resumes tail ds rest)
      (hw : w ∈ plainWords rest) : w.length ≤ cs.length := by
    rcases hr with rfl | ⟨es, hes, rfl⟩
    · simp [plainWords] at hw
    · have hle := hes.length_le
      have := length_le_of_mem_plainWords es (fun hm => hn (hes.subset hm)) w hw
      omega
  cases cs with
  | nil =>
    rw [show doubled [] ++ '"' :: tail = '"' :: tail from rfl, plainWords_string,
      splitLiteral_tail htail (by decide) (by decide)] at hw
    simp [plainWords] at hw
  | cons c cs =>
    have hn : '\n' ∉ cs := fun hm => hcs (List.mem_cons_of_mem _ hm)
    have hlt : cs.length < (c :: cs).length := Nat.lt_succ_self _
    by_cases hq : c = '"'
    · rw [hq, doubled_quote, List.cons_append, List.cons_append, plainWords_string,
        splitLiteral_quote (by decide)] at hw
      exact hresumes hlt hn (.inr ⟨cs, List.suffix_rfl, rfl⟩) hw
    · rw [doubled_cons hq, List.cons_append, plainWords] at hw
      split at hw
      · exact hresumes hlt hn (resumes_line htail hn) hw
      split at hw
      · next hc =>
        obtain ⟨ds, rfl⟩ := exists_cons_of_head? (beq_iff_eq.1 (Bool.and_eq_true_iff.1 hc).2) (by decide)
        refine hresumes hlt hn ((resumes_splitComment htail ds).cons '*') ?_
        rwa [doubled_cons (by decide)] at hw
      split at hw
      · next hc =>
        obtain rfl : c = '\'' := by simpa [hq] using hc
        exact hresumes hlt hn (resumes_splitLiteral htail cs) hw
      have hdrop : Resumes tail cs ((doubled cs ++ '"' :: tail).dropWhile isPlainPart) :=
        .inr ⟨_, List.dropWhile_suffix _, (takeWhile_doubled cs).2⟩
      split at hw
      · rcases List.mem_cons.1 hw with rfl | hw
        · rw [(takeWhile_doubled cs).1]
          exact Nat.succ_le_succ (List.takeWhile_sublist _).length_le
        · exact hresumes hlt hn hdrop hw
      split at hw
      · exact hresumes hlt hn hdrop hw
      · exact hresumes hlt hn (.inr ⟨cs, List.suffix_rfl, rfl⟩) hw
termination_by cs.length

/-- A string with a guarded quote gives no word that is longer than its text, whatever follows it. -/
theorem length_le_of_guarded {cs : List Char} (hcs : unguarded false cs = false) (hn : '\n' ∉ cs) :
    ∀ w ∈ plainWords ('"' :: (doubled cs ++ '"' :: tail)), w.length ≤ cs.length := by
  rw [plainWords_string]
  intro w hw
  induction cs using backslash_induction with
  | nil => exact absurd hcs (by decide)
  | lone =>
    rw [show doubled ['\\'] ++ '"' :: tail = '\\' :: '"' :: tail from rfl, splitLiteral_escape,
      splitLiteral_tail htail (by decide) (by decide)] at hw
    simp [plainWords] at hw
  | escape c cs ih =>
    have hn : '\n' ∉ cs := fun hm => hn (List.mem_cons_of_mem _ (List.mem_cons_of_mem _ hm))
    have hle : cs.length ≤ ('\\' :: c :: cs).length := by
      simp only [List.length_cons]
      omega
    rw [doubled_cons (by decide)] at hw
    by_cases hq : c = '"'
    · rw [hq, doubled_quote, List.cons_append, List.cons_append, List.cons_append, splitLiteral_escape,
        splitLiteral_quote (by decide)] at hw
      exact (length_le_of_mem_plainWords htail cs hn w hw).trans hle
    · rw [doubled_cons hq, List.cons_append, List.cons_append, splitLiteral_escape] at hw
      rw [unguarded_escape, bne_iff_ne.2 hq, Bool.true_and] at hcs
      exact (ih hcs hn hw).trans hle
  | char c cs hc ih =>
    have hn : '\n' ∉ cs := fun hm => hn (List.mem_cons_of_mem _ hm)
    rw [unguarded_char hc] at hcs
    have hw : w ∈ plainWords (splitLiteral '"' false (doubled cs ++ '"' :: tail)).2 := by
      by_cases hq : c = '"'
      · rw [hq, doubled_quote, List.cons_append, List.cons_append, splitLiteral_quote (by decide),
          plainWords_string] at hw
        exact hw
      · rwa [doubled_cons hq, List.cons_append, splitLiteral_char hq hc] at hw
    exact (ih hcs hn hw).trans (Nat.le_succ _)

end Tail

/-- A verbatim string that no token can be read from: `\d` is no escape. -/
def digitPattern : Verbatim :=
  ⟨['\\', 'd'], List.all_eq_true.1 rfl⟩

theorem scan?_digitPattern (rest : List Char) : scan? ((Item.verbatim digitPattern).text ++ rest) = none := by
  have hquoted (cs : List Char) : afterQuoted? .text ('\\' :: 'd' :: cs) = none := by
    have hescape : afterEscape? .text ('d' :: cs) = none := rfl
    rw [afterQuoted?, if_neg (by decide), if_neg (by decide), if_pos (by decide), if_neg (by simp)]
    split
    · next h =>
      rw [hescape] at h
      exact absurd h (by simp)
    · rfl
  have htext : (Item.verbatim digitPattern).text ++ rest = '@' :: '"' :: '\\' :: 'd' :: '"' :: rest := rfl
  rw [htext, scan?_atSign, scan?_string, hquoted]
  rfl

/-- A string after one that is no token, and a word after both. -/
def exposed (s : Verbatim) (w : Ident) : List Item :=
  [.verbatim digitPattern, .verbatim s, .lexeme (.word w)]

theorem spaced_exposed (s : Verbatim) (w : Ident) :
    spaced ((exposed s w).map Item.text) = (Item.verbatim digitPattern).text ++
      ' ' :: '@' :: '"' :: (doubled s.chars ++ '"' :: ' ' :: w.first :: w.rest) := by
  simp [exposed, spaced_cons, led, Item.text, Lexeme.text]

/-- Where the tokens cannot be asked, a word after a string with a guarded quote is lost, if it is longer than the
text of the string and so cannot be found in there. -/
theorem notMem_mentions_of_guarded {s : Verbatim} (hs : unguarded false s.chars = false) {w : Ident}
    (hw : s.chars.length ≤ w.rest.length) :
    w.first :: w.rest ∉ mentions (spaced ((exposed s w).map Item.text)) := by
  have htail : IsCode (' ' :: w.first :: w.rest) := by
    refine List.forall_mem_cons.2 ⟨.inr rfl, List.forall_mem_cons.2 ⟨.inl ?_, ?_⟩⟩
    · exact isPlainPart_of_isStart w.first_isStart
    · exact fun c hc => .inl (w.rest_isPart c hc)
  have hn : '\n' ∉ s.chars := fun hm => absurd (s.isPrintable _ hm) (by decide)
  have hpattern : ∀ t, Item.verbatim digitPattern = .verbatim t → unguarded false t.chars = true := by
    rintro t h
    obtain rfl := Item.verbatim.inj h
    decide
  have hplain : plainWords (spaced ((exposed s w).map Item.text)) =
      plainWords ('"' :: (doubled s.chars ++ '"' :: ' ' :: w.first :: w.rest)) := by
    rw [spaced_exposed]
    exact finds_plainWords.item (.verbatim digitPattern) hpattern (ends_cons _)
      (finds_plainWords.blank (finds_plainWords.atSign rfl))
  rw [mentions_of_scan?_eq_none (by rw [spaced_exposed, scan?_digitPattern]), hplain]
  intro hmem
  have hlen := length_le_of_guarded htail hs hn _ hmem
  simp only [List.length_cons] at hlen
  omega

/-! ## The words of a listing -/

/-- A listing in which no quote of a string is guarded is read right. -/
theorem seesWords_of_unguarded (items : List Item)
    (h : ∀ s, .verbatim s ∈ items → unguarded false s.chars = true) : SeesWords items := by
  have hwords : (items.flatMap Item.names).map String.ofList = items.flatMap Item.words := by
    rw [List.map_flatMap]
    congr 1
    funext i
    exact i.names_eq
  unfold SeesWords identifiers listing
  rw [String.toList_ofList, expand_listing, mentions_listing items h, eraseDups_map_ofList, hwords]
  exact firstSeen_eraseDups _

theorem not_seesWords_of_guarded {s : Verbatim} (hs : unguarded false s.chars = false) {w : Ident}
    (hw : s.chars.length ≤ w.rest.length) : ¬ SeesWords (exposed s w) := by
  intro hseen
  have hmem := (hseen.mem (String.ofList (w.first :: w.rest))).2 List.mem_cons_self
  exact notMem_mentions_of_guarded hs hw (mem_identifiers_listing.1 hmem)

/-- The word `w`, drawn out. -/
def longWord (length : Nat) : Ident where
  first := 'w'
  rest := List.replicate length 'w'
  first_isStart := by decide
  rest_isPart c hc := by
    rw [List.eq_of_mem_replicate hc]
    decide

/-- A verbatim string is safe in every listing, among strings without guarded quotes, exactly if it has no guarded
quote itself. -/
theorem seesWords_listing (s : Verbatim) :
    (∀ items : List Item, (∀ t, .verbatim t ∈ items → t = s ∨ unguarded false t.chars = true) → SeesWords items) ↔
      unguarded false s.chars = true := by
  constructor
  · intro h
    by_contra hs
    refine not_seesWords_of_guarded (Bool.eq_false_iff.2 hs) (w := longWord s.chars.length) ?_ (h _ ?_)
    · exact List.length_replicate.ge
    · intro t ht
      rcases List.mem_cons.1 ht with ht | ht
      · obtain rfl := Item.verbatim.inj ht
        exact .inr (by decide)
      · rcases List.mem_cons.1 ht with ht | ht
        · exact .inl (Item.verbatim.inj ht)
        · exact absurd (List.mem_singleton.1 ht) nofun
  · intro hs items hitems
    refine seesWords_of_unguarded items fun t ht => ?_
    rcases hitems t ht with rfl | ht
    · exact hs
    · exact ht

def pathWord : Ident :=
  ⟨'P', ['a', 't', 'h'], by decide, List.all_eq_true.1 rfl⟩

/-- `say "\\` as a verbatim string: its own quote is doubled, and two backslashes guard nothing. -/
def sayString : Verbatim :=
  ⟨['s', 'a', 'y', ' ', '"', '\\', '\\'], List.all_eq_true.1 rfl⟩

theorem seesWords_listing_path :
    unguarded false sayString.chars = true ∧ FirstSeen ["Path"] (identifiers "( Path . @\"say \"\"\\\\\" )") := by
  let items : List Item := [.lexeme (.opening .round), .lexeme (.word pathWord), .lexeme (.mark ⟨'.', by decide⟩),
    .verbatim sayString, .lexeme (.closing .round)]
  have hsay : unguarded false sayString.chars = true := by decide
  have hitems : ∀ t, .verbatim t ∈ items → t = sayString ∨ unguarded false t.chars = true := by
    intro t ht
    simp only [items, List.mem_cons, List.not_mem_nil, reduceCtorEq, Item.verbatim.injEq, false_or, or_false] at ht
    exact .inl ht
  have hlisting : listing items = "( Path . @\"say \"\"\\\\\" )" := by decide +kernel
  have hseen := (seesWords_listing sayString).2 hsay items hitems
  unfold SeesWords at hseen
  rw [hlisting] at hseen
  exact ⟨hsay, hseen⟩

def drivePath : List Item :=
  [.verbatim ⟨['C', ':', '\\'], List.all_eq_true.1 rfl⟩, .lexeme (.mark ⟨'+', by decide⟩), .lexeme (.word pathWord)]

/-- One backslash before the closing quote hides the code that follows. -/
theorem trailing_backslash_hides_code :
    listing drivePath = "@\"C:\\\" + Path" ∧ ¬ SeesWords drivePath := by
  have hscan : scan? (spaced (drivePath.map Item.text)) = none := by decide +kernel
  have hwords : plainWords (spaced (drivePath.map Item.text)) = [] := by decide +kernel
  refine ⟨by decide +kernel, fun hseen => ?_⟩
  have hmem := (hseen.mem (String.ofList ['P', 'a', 't', 'h'])).2 (by decide +kernel)
  rw [mem_identifiers_listing, mentions_of_scan?_eq_none hscan, hwords] at hmem
  exact absurd hmem List.not_mem_nil

end TypeDoctrine.Source
