import TypeDoctrine.Proofs.Source.Expansion
import TypeDoctrine.Proofs.Source.StringEnd

/-!
# Nested interpolated strings

The holes of an interpolated string hold code with strings of every kind, interpolated ones among them, to any depth.
The reader that looks for the brace of a hole knows plain strings, verbatim strings and characters, and brackets outside
of them. To it an interpolated string inside a hole ends at the next quote, be it that of a string in a hole of its own.

So a hole is found right exactly if its text reads as code with plain literals (`Closes`), whatever it was written as.
Read that way, the levels of nesting take turns: what stands in a hole of a nested string is taken for the text of a
string, and the strings in there are taken for code. Where the texts that are taken for code have no brackets and
quotes, holes of any depth are found (`HoleCode.closes_of_isSeen`); where one has a brace, the hole ends in the middle
of it (`brace_in_nested_string`).
-/

namespace TypeDoctrine.Source

/-! ## The grammar -/

/-- The text between the quotes of a literal. A backslash takes the next character along, except in a verbatim
literal, where a quote is doubled. -/
inductive LiteralBody (quote : Char) : Bool → List Char → Prop where
  | nil {verbatim : Bool} : LiteralBody quote verbatim []
  | char {verbatim : Bool} {c : Char} {cs : List Char} (ne_quote : c ≠ quote) (ne_escape : verbatim = true ∨ c ≠ '\\')
      (rest : LiteralBody quote verbatim cs) : LiteralBody quote verbatim (c :: cs)
  | escape (c : Char) {cs : List Char} (rest : LiteralBody quote false cs) : LiteralBody quote false ('\\' :: c :: cs)
  | double {cs : List Char} (rest : LiteralBody quote true cs) : LiteralBody quote true (quote :: quote :: cs)

/-- A string, verbatim string or character, without holes. -/
inductive Literal where
  | string (chars : List Char) (isBody : LiteralBody '"' false chars)
  | verbatim (chars : List Char) (isBody : LiteralBody '"' true chars)
  | character (chars : List Char) (isBody : LiteralBody '\'' false chars)

/-- How an interpolated string opens. -/
inductive Opener where
  | dollar
  | dollarAt
  | atDollar
deriving DecidableEq

def Opener.isVerbatim : Opener → Bool
  | .dollar => false
  | _ => true

/-- The characters of code that start no literal and are no bracket. -/
def isCodeChar (c : Char) : Bool :=
  !(['"', '\'', '(', ')', '[', ']', '{', '}', '@', '$', '\\'].contains c)

/-- The characters of the text of an interpolated string that stand for themselves. -/
def isTextChar (verbatim : Bool) (c : Char) : Bool :=
  !(['"', '{', '}'].contains c) && (verbatim || c != '\\')

mutual

/-- The code of a hole: its brackets match. -/
inductive HoleCode : Type where
  | nil
  | char (c : Char) (isCode : isCodeChar c = true) (rest : HoleCode)
  /-- A name that is set off by an at sign, or a letter that is written as an escape. -/
  | marked (mark c : Char) (isMark : mark = '@' ∨ mark = '\\') (isCode : isCodeChar c = true) (rest : HoleCode)
  | group (b : Bracket) (inner rest : HoleCode)
  | literal (l : Literal) (rest : HoleCode)
  | interpolated (o : Opener) (body : HoledText o.isVerbatim) (rest : HoleCode)

/-- What stands between the quotes of an interpolated string, verbatim or not: text and holes. -/
inductive HoledText : Bool → Type where
  | nil {verbatim : Bool} : HoledText verbatim
  | char {verbatim : Bool} (c : Char) (isText : isTextChar verbatim c = true) (rest : HoledText verbatim) :
      HoledText verbatim
  | escape (c : Char) (rest : HoledText false) : HoledText false
  | quote (rest : HoledText true) : HoledText true
  | brace {verbatim : Bool} (c : Char) (isBrace : c = '{' ∨ c = '}') (rest : HoledText verbatim) : HoledText verbatim
  | hole {verbatim : Bool} (e : HoleCode) (rest : HoledText verbatim) : HoledText verbatim

end

def Literal.text : Literal → List Char
  | .string chars _ => '"' :: (chars ++ ['"'])
  | .verbatim chars _ => '@' :: '"' :: (chars ++ ['"'])
  | .character chars _ => '\'' :: (chars ++ ['\''])

def Literal.isVerbatim : Literal → Bool
  | .verbatim _ _ => true
  | _ => false

def Opener.text : Opener → List Char
  | .dollar => ['$', '"']
  | .dollarAt => ['$', '@', '"']
  | .atDollar => ['@', '$', '"']

mutual

def HoleCode.text : HoleCode → List Char
  | .nil => []
  | .char c _ rest => c :: rest.text
  | .marked mark c _ _ rest => mark :: c :: rest.text
  | .group b inner rest => b.opener :: (inner.text ++ b.closer :: rest.text)
  | .literal l rest => l.text ++ rest.text
  | .interpolated o body rest => o.text ++ (body.text ++ '"' :: rest.text)

def HoledText.text {verbatim : Bool} : HoledText verbatim → List Char
  | .nil => []
  | .char c _ rest => c :: rest.text
  | .escape c rest => '\\' :: c :: rest.text
  | .quote rest => '"' :: '"' :: rest.text
  | .brace c _ rest => c :: c :: rest.text
  | .hole e rest => '{' :: (e.text ++ '}' :: rest.text)

end

mutual

/-- No quote follows a verbatim string directly, as it would be a doubled one, and no hole starts with a brace, as
that would be a doubled one too. -/
def HoleCode.isWellFormed : HoleCode → Bool
  | .nil => true
  | .char _ _ rest | .marked _ _ _ _ rest => rest.isWellFormed
  | .group _ inner rest => inner.isWellFormed && rest.isWellFormed
  | .literal l rest => (!l.isVerbatim || rest.text.head? != some '"') && rest.isWellFormed
  | .interpolated o body rest =>
    body.isWellFormed && (!o.isVerbatim || rest.text.head? != some '"') && rest.isWellFormed

def HoledText.isWellFormed {verbatim : Bool} : HoledText verbatim → Bool
  | .nil => true
  | .char _ _ rest | .escape _ rest | .quote rest | .brace _ _ rest => rest.isWellFormed
  | .hole e rest => e.text.head? != some '{' && e.isWellFormed && rest.isWellFormed

end

/-- The holes of an interpolated string itself, without those of strings inside them. -/
def HoledText.holes {verbatim : Bool} : HoledText verbatim → List HoleCode
  | .nil => []
  | .char _ _ rest | .escape _ rest | .quote rest | .brace _ _ rest => rest.holes
  | .hole e rest => e :: rest.holes

/-! ## Reading without nesting -/

/-- The characters that the reader of a hole passes over: no quote, no bracket and no at sign. -/
def passesHole (c : Char) : Bool :=
  !(['"', '\'', '(', ')', '[', ']', '{', '}', '@'].contains c)

/-- Text that reads as code with plain literals, from a bracket depth on: each brace it closes is open, and at its end
none is. Other brackets count as braces do, except that one too many is let go. -/
inductive Closes : Nat → List Char → Prop where
  | nil : Closes 0 []
  | char {depth : Nat} {c : Char} {cs : List Char} (passes : passesHole c = true) (rest : Closes depth cs) :
      Closes depth (c :: cs)
  | atSign {depth : Nat} {cs : List Char} (ne_quote : cs.head? ≠ some '"') (rest : Closes depth cs) :
      Closes depth ('@' :: cs)
  | opening {depth : Nat} {cs : List Char} (b : Bracket) (rest : Closes (depth + 1) cs) :
      Closes depth (b.opener :: cs)
  | closing {depth : Nat} {cs : List Char} (b : Bracket) (isOpen : b = .curly → depth ≠ 0)
      (rest : Closes (depth - 1) cs) : Closes depth (b.closer :: cs)
  | string {depth : Nat} {body cs : List Char} (isBody : LiteralBody '"' false body) (rest : Closes depth cs) :
      Closes depth ('"' :: (body ++ '"' :: cs))
  | verbatim {depth : Nat} {body cs : List Char} (isBody : LiteralBody '"' true body)
      (ne_quote : cs.head? ≠ some '"') (rest : Closes depth cs) : Closes depth ('@' :: '"' :: (body ++ '"' :: cs))
  | character {depth : Nat} {body cs : List Char} (isBody : LiteralBody '\'' false body) (rest : Closes depth cs) :
      Closes depth ('\'' :: (body ++ '\'' :: cs))

/-! ### The end of a literal -/

theorem head?_append_ne {cs : List Char} {c d : Char} (h : cs.head? ≠ some c) (hd : d ≠ c) (rest : List Char) :
    (cs ++ d :: rest).head? ≠ some c := by
  cases cs with
  | nil => exact fun he => hd (Option.some.inj he)
  | cons _ _ => exact h

theorem splitLiteral_end {quote : Char} {verbatim : Bool} {rest : List Char} (hq : quote ≠ '\\')
    (hr : verbatim = true → rest.head? ≠ some quote) : (splitLiteral quote verbatim (quote :: rest)).2 = rest := by
  cases rest with
  | nil => rfl
  | cons d rest =>
    have hd : ¬ (verbatim = true ∧ d = quote) := fun ⟨hv, hd⟩ => hr hv (congrArg some hd)
    simp [splitLiteral, hq, hd]

theorem splitLiteral_pass {quote c : Char} {verbatim : Bool} (hc : c ≠ quote) (he : verbatim = true ∨ c ≠ '\\')
    (rest : List Char) : (splitLiteral quote verbatim (c :: rest)).2 = (splitLiteral quote verbatim rest).2 := by
  cases rest with
  | nil => rfl
  | cons d rest =>
    have he : ¬ (c = '\\' ∧ verbatim = false) := by
      rintro ⟨rfl, rfl⟩
      simp at he
    simp [splitLiteral, hc, he]

theorem splitLiteral_double (quote : Char) (rest : List Char) :
    (splitLiteral quote true (quote :: quote :: rest)).2 = (splitLiteral quote true rest).2 := by
  simp [splitLiteral]

/-- A literal ends at its own quote. -/
theorem LiteralBody.splitLiteral_eq {quote : Char} {verbatim : Bool} {body : List Char} (hq : quote ≠ '\\')
    (h : LiteralBody quote verbatim body) {rest : List Char} (hr : verbatim = true → rest.head? ≠ some quote) :
    (splitLiteral quote verbatim (body ++ quote :: rest)).2 = rest := by
  induction h with
  | nil => exact splitLiteral_end hq hr
  | char hc he _ ih => exact (splitLiteral_pass hc he _).trans (ih hr)
  | escape c _ ih => exact (splitLiteral_escape quote c _).trans (ih hr)
  | double _ ih => exact (splitLiteral_double quote _).trans (ih hr)

/-- The literal that the text starts with is closed in it, before `tail`. -/
def EndsBefore (quote : Char) (verbatim : Bool) (cs tail : List Char) : Prop :=
  ∃ body, cs = body ++ quote :: tail ∧ LiteralBody quote verbatim body ∧ (verbatim = true → tail.head? ≠ some quote)

theorem EndsBefore.char {quote c : Char} {verbatim : Bool} {cs tail : List Char} (hc : c ≠ quote)
    (he : verbatim = true ∨ c ≠ '\\') (h : EndsBefore quote verbatim cs tail) :
    EndsBefore quote verbatim (c :: cs) tail := by
  obtain ⟨body, rfl, hbody, htail⟩ := h
  exact ⟨c :: body, rfl, .char hc he hbody, htail⟩

theorem EndsBefore.escape {quote : Char} {cs tail : List Char} (c : Char) (h : EndsBefore quote false cs tail) :
    EndsBefore quote false ('\\' :: c :: cs) tail := by
  obtain ⟨body, rfl, hbody, htail⟩ := h
  exact ⟨'\\' :: c :: body, rfl, .escape c hbody, htail⟩

theorem EndsBefore.double {quote : Char} {cs tail : List Char} (h : EndsBefore quote true cs tail) :
    EndsBefore quote true (quote :: quote :: cs) tail := by
  obtain ⟨body, rfl, hbody, htail⟩ := h
  exact ⟨quote :: quote :: body, rfl, .double hbody, htail⟩

theorem EndsBefore.length_lt {quote : Char} {verbatim : Bool} {cs tail : List Char}
    (h : EndsBefore quote verbatim cs tail) : tail.length < cs.length := by
  obtain ⟨body, rfl, -, -⟩ := h
  simp only [List.length_append, List.length_cons]
  omega

theorem length_splitLiteral_cons {quote d : Char} (hd : d ≠ quote) (verbatim : Bool) (rest : List Char) :
    (splitLiteral quote verbatim (d :: rest)).2.length ≤ rest.length := by
  by_cases he : verbatim = true ∨ d ≠ '\\'
  · rw [splitLiteral_pass hd he]
    exact splitLiteral_length quote verbatim rest
  · rw [not_or, Decidable.not_not, Bool.not_eq_true] at he
    obtain ⟨rfl, rfl⟩ := he
    cases rest with
    | nil => exact Nat.le_refl _
    | cons e rest =>
      rw [splitLiteral_escape]
      exact Nat.le_trans (splitLiteral_length quote false rest) (Nat.le_succ _)

/-- Before text that goes on with no quote, a literal is closed in what comes first, or it takes some of that text. -/
theorem splitLiteral_append_cases {quote : Char} (hq : quote ≠ '\\') (verbatim : Bool) {d : Char} (hd : d ≠ quote)
    (rest : List Char) : ∀ cs : List Char,
    (∃ tail, EndsBefore quote verbatim cs tail ∧
      (splitLiteral quote verbatim (cs ++ d :: rest)).2 = tail ++ d :: rest) ∨
    (splitLiteral quote verbatim (cs ++ d :: rest)).2.length ≤ rest.length
  | [] => .inr (length_splitLiteral_cons hd verbatim rest)
  | c :: cs => by
    by_cases hc : c = quote
    · subst hc
      -- a doubled quote goes on, any other ends the literal here
      by_cases hdouble : verbatim = true ∧ cs.head? = some c
      · obtain ⟨rfl, hhead⟩ := hdouble
        cases cs with
        | nil => exact absurd hhead nofun
        | cons e cs =>
          obtain rfl : e = c := Option.some.inj hhead
          rw [List.cons_append, List.cons_append, splitLiteral_double]
          rcases splitLiteral_append_cases hq true hd rest cs with ⟨tail, htail, heq⟩ | hlen
          · exact .inl ⟨tail, htail.double, heq⟩
          · exact .inr hlen
      · rw [not_and] at hdouble
        refine .inl ⟨cs, ⟨[], rfl, .nil, hdouble⟩, ?_⟩
        exact splitLiteral_end hq fun hv => head?_append_ne (hdouble hv) hd rest
    · by_cases he : verbatim = true ∨ c ≠ '\\'
      · rw [List.cons_append, splitLiteral_pass hc he]
        rcases splitLiteral_append_cases hq verbatim hd rest cs with ⟨tail, htail, heq⟩ | hlen
        · exact .inl ⟨tail, htail.char hc he, heq⟩
        · exact .inr hlen
      · rw [not_or, Decidable.not_not, Bool.not_eq_true] at he
        obtain ⟨rfl, rfl⟩ := he
        cases cs with
        | nil =>
          -- the backslash guards the first character of what follows
          rw [List.cons_append, List.nil_append, splitLiteral_escape]
          exact .inr (splitLiteral_length quote false rest)
        | cons e cs =>
          rw [List.cons_append, List.cons_append, splitLiteral_escape]
          rcases splitLiteral_append_cases hq false hd rest cs with ⟨tail, htail, heq⟩ | hlen
          · exact .inl ⟨tail, htail.escape e, heq⟩
          · exact .inr hlen

/-! ### The brace of a hole -/

/-- What follows the closing brace of a hole that is read from a bracket depth on. -/
def afterHole (depth : Nat) (afterAt : Bool) (cs : List Char) : List Char :=
  (splitHole depth afterAt false cs).2

/-- A format ends where code would end. -/
theorem splitHole_snd (depth : Nat) (afterAt inFormat : Bool) (cs : List Char) :
    (splitHole depth afterAt inFormat cs).2 = afterHole depth afterAt cs := by
  unfold afterHole
  fun_induction splitHole depth afterAt inFormat cs with
  | case1 => simp [splitHole]
  | case2 depth afterAt inFormat c rest hc lit r ih =>
    rw [splitHole.eq_2, if_pos hc]
    exact ih
  | case3 depth afterAt inFormat c rest hc hd =>
    rw [splitHole.eq_2, if_neg hc, if_pos hd]
  | case4 depth afterAt inFormat c rest hc hd hf ih =>
    rw [splitHole.eq_2, if_neg hc, if_neg hd, if_pos (by simp_all)]
  | case5 depth afterAt inFormat c rest hc hd hf r ih =>
    have hr : r.2 = (splitHole (depthAfter depth c) (c == '@') false rest).2 := ih
    simp only [hr]
    rw [splitHole.eq_2 depth afterAt false, if_neg hc, if_neg hd]
    by_cases h : c = ':' ∧ depth = 0
    · -- here the format has been entered before
      obtain ⟨rfl, rfl⟩ := h
      obtain rfl : inFormat = true := by simpa using hf
      exact hr.symm
    · rw [if_neg (by simpa using h)]

theorem afterHole_quote {quote : Char} (hq : quote = '"' ∨ quote = '\'') (depth : Nat) (afterAt : Bool)
    (rest : List Char) :
    afterHole depth afterAt (quote :: rest) =
      afterHole depth false (splitLiteral quote (quote == '"' && afterAt) rest).2 := by
  unfold afterHole
  rw [splitHole.eq_2, if_pos (by rcases hq with rfl | rfl <;> rfl)]

theorem afterHole_end (afterAt : Bool) (rest : List Char) : afterHole 0 afterAt ('}' :: rest) = rest := by
  simp [afterHole, splitHole]

theorem afterHole_cons {c : Char} (hq : c ≠ '"' ∧ c ≠ '\'') {depth : Nat} (hc : c = '}' → depth ≠ 0) (afterAt : Bool)
    (rest : List Char) :
    afterHole depth afterAt (c :: rest) = afterHole (depthAfter depth c) (c == '@') rest := by
  rw [afterHole, splitHole.eq_2, if_neg (by simp [hq]), if_neg (by simpa using hc)]
  split
  · next h =>
    simp only [Bool.and_eq_true, beq_iff_eq, Bool.not_false, and_true] at h
    obtain ⟨rfl, rfl⟩ := h
    exact splitHole_snd 0 false true rest
  · rfl

theorem afterHole_pass {c : Char} (hc : passesHole c = true) (depth : Nat) (afterAt : Bool) (rest : List Char) :
    afterHole depth afterAt (c :: rest) = afterHole depth false rest := by
  have hne : c ≠ '"' ∧ c ≠ '\'' ∧ c ≠ '(' ∧ c ≠ ')' ∧ c ≠ '[' ∧ c ≠ ']' ∧ c ≠ '{' ∧ c ≠ '}' ∧ c ≠ '@' := by
    simpa [passesHole] using hc
  have hdepth : depthAfter depth c = depth := by simp [depthAfter, hne]
  have hat : (c == '@') = false := by simp [hne]
  rw [afterHole_cons ⟨hne.1, hne.2.1⟩ (fun h => absurd h hne.2.2.2.2.2.2.2.1), hdepth, hat]

theorem afterHole_atSign (depth : Nat) (afterAt : Bool) (rest : List Char) :
    afterHole depth afterAt ('@' :: rest) = afterHole depth true rest :=
  afterHole_cons (by decide) (fun h => absurd h (by decide)) afterAt rest

theorem afterHole_opener (b : Bracket) (depth : Nat) (afterAt : Bool) (rest : List Char) :
    afterHole depth afterAt (b.opener :: rest) = afterHole (depth + 1) false rest := by
  cases b <;> exact afterHole_cons (by decide) (fun h => absurd h (by decide)) afterAt rest

theorem afterHole_closer {b : Bracket} {depth : Nat} (hb : b = .curly → depth ≠ 0) (afterAt : Bool)
    (rest : List Char) : afterHole depth afterAt (b.closer :: rest) = afterHole (depth - 1) false rest := by
  cases b with
  | curly => exact afterHole_cons (by decide) (fun _ => hb rfl) afterAt rest
  | _ => exact afterHole_cons (by decide) (fun h => absurd h (by decide)) afterAt rest

/-- An at sign matters to a string that follows it, and to nothing else. -/
theorem afterHole_afterAt {cs : List Char} (h : cs.head? ≠ some '"') (depth : Nat) :
    afterHole depth true cs = afterHole depth false cs := by
  cases cs with
  | nil => simp [afterHole, splitHole]
  | cons c rest =>
    have hquote : c ≠ '"' := by
      rintro rfl
      exact h rfl
    by_cases hc : c = '\''
    · subst hc
      rw [afterHole_quote (.inr rfl), afterHole_quote (.inr rfl)]
      rfl
    · by_cases hend : c = '}' ∧ depth = 0
      · obtain ⟨rfl, rfl⟩ := hend
        rw [afterHole_end, afterHole_end]
      · rw [not_and] at hend
        rw [afterHole_cons ⟨hquote, hc⟩ hend, afterHole_cons ⟨hquote, hc⟩ hend]

/-- The brace after text that closes is the brace of the hole. -/
theorem Closes.afterHole_eq {depth : Nat} {cs : List Char} (h : Closes depth cs) (after : List Char) :
    afterHole depth false (cs ++ '}' :: after) = after := by
  induction h with
  | nil => exact afterHole_end false after
  | char hc _ ih =>
    rw [List.cons_append, afterHole_pass hc]
    exact ih
  | atSign hq _ ih =>
    rw [List.cons_append, afterHole_atSign, afterHole_afterAt (head?_append_ne hq (by decide) after)]
    exact ih
  | opening b _ ih =>
    rw [List.cons_append, afterHole_opener]
    exact ih
  | closing b hb _ ih =>
    rw [List.cons_append, afterHole_closer hb]
    exact ih
  | string hs _ ih =>
    simp only [List.cons_append, List.append_assoc]
    rw [afterHole_quote (.inl rfl), Bool.and_false, hs.splitLiteral_eq (by decide) nofun]
    exact ih
  | verbatim hs hq _ ih =>
    simp only [List.cons_append, List.append_assoc]
    rw [afterHole_atSign, afterHole_quote (.inl rfl), beq_self_eq_true, Bool.and_self,
      hs.splitLiteral_eq (by decide) fun _ => head?_append_ne hq (by decide) after]
    exact ih
  | character hs _ ih =>
    simp only [List.cons_append, List.append_assoc]
    rw [afterHole_quote (.inr rfl), Bool.and_false, hs.splitLiteral_eq (by decide) nofun]
    exact ih

theorem afterHole_length (depth : Nat) (afterAt : Bool) (c : Char) (rest : List Char) :
    (afterHole depth afterAt (c :: rest)).length ≤ rest.length := by
  have hlength (depth : Nat) (afterAt : Bool) (cs : List Char) : (afterHole depth afterAt cs).length ≤ cs.length :=
    Nat.le_trans (Nat.le_add_left _ _) (splitHole_length depth afterAt false cs)
  by_cases hq : c = '"' ∨ c = '\''
  · rw [afterHole_quote hq]
    exact Nat.le_trans (hlength _ _ _) (splitLiteral_length _ _ rest)
  · rw [not_or] at hq
    by_cases hend : c = '}' ∧ depth = 0
    · obtain ⟨rfl, rfl⟩ := hend
      exact Nat.le_of_eq (congrArg List.length (afterHole_end afterAt rest))
    · rw [not_and] at hend
      rw [afterHole_cons hq hend]
      exact hlength _ _ _

/-- What a character is to the reader of a hole. -/
theorem passesHole_or (c : Char) :
    passesHole c = true ∨ c = '"' ∨ c = '\'' ∨ c = '@' ∨ (∃ b : Bracket, c = b.opener) ∨
      ∃ b : Bracket, c = b.closer := by
  by_cases h : c ∈ ['"', '\'', '(', ')', '[', ']', '{', '}', '@']
  · simp only [List.mem_cons, List.not_mem_nil, or_false] at h
    rcases h with rfl | rfl | rfl | rfl | rfl | rfl | rfl | rfl | rfl
    · exact .inr (.inl rfl)
    · exact .inr (.inr (.inl rfl))
    · exact .inr (.inr (.inr (.inr (.inl ⟨.round, rfl⟩))))
    · exact .inr (.inr (.inr (.inr (.inr ⟨.round, rfl⟩))))
    · exact .inr (.inr (.inr (.inr (.inl ⟨.square, rfl⟩))))
    · exact .inr (.inr (.inr (.inr (.inr ⟨.square, rfl⟩))))
    · exact .inr (.inr (.inr (.inr (.inl ⟨.curly, rfl⟩))))
    · exact .inr (.inr (.inr (.inr (.inr ⟨.curly, rfl⟩))))
    · exact .inr (.inr (.inr (.inl rfl)))
  · exact .inl (by simpa [passesHole] using h)

/-- A literal in a hole that is found is closed in the hole. -/
theorem endsBefore_of_afterHole_eq {quote : Char} (hq : quote = '"' ∨ quote = '\'') {verbatim : Bool} {depth : Nat}
    {cs : List Char}
    (h : afterHole depth false (splitLiteral quote verbatim (cs ++ ['}', 'x'])).2 = ['x']) :
    ∃ tail, EndsBefore quote verbatim cs tail ∧ afterHole depth false (tail ++ ['}', 'x']) = ['x'] := by
  have hne : quote ≠ '\\' ∧ '}' ≠ quote := by rcases hq with rfl | rfl <;> decide
  rcases splitLiteral_append_cases hne.1 verbatim hne.2 ['x'] cs with ⟨tail, htail, heq⟩ | hlen
  · rw [heq] at h
    exact ⟨tail, htail, h⟩
  · -- what is left is a letter at most, and the reader takes that too
    generalize (splitLiteral quote verbatim (cs ++ ['}', 'x'])).2 = left at h hlen
    cases left with
    | nil => simp [afterHole, splitHole] at h
    | cons c left =>
      have hleft := afterHole_length depth false c left
      rw [h] at hleft
      simp only [List.length_cons, List.length_nil] at hlen hleft
      omega

/-- If the brace of a hole is found, the hole closes. One letter after the brace is enough to tell: a reader that misses
the brace leaves nothing of it. -/
theorem closes_of_afterHole_eq (depth : Nat) (cs : List Char)
    (h : afterHole depth false (cs ++ ['}', 'x']) = ['x']) : Closes depth cs := by
  -- the induction is on the length: a literal moves the reader to its end
  match cs with
  | [] =>
    cases depth with
    | zero => exact .nil
    | succ depth =>
      have hbrace : afterHole (depth + 1) false ['}', 'x'] = afterHole depth false ['x'] :=
        @afterHole_closer .curly (depth + 1) (fun _ => Nat.succ_ne_zero depth) false ['x']
      have hx := afterHole_length depth false 'x' []
      rw [← hbrace, show afterHole (depth + 1) false ['}', 'x'] = ['x'] from h] at hx
      exact absurd hx (by decide)
  | c :: cs =>
    rw [List.cons_append] at h
    rcases passesHole_or c with hc | rfl | rfl | rfl | ⟨b, rfl⟩ | ⟨b, rfl⟩
    · rw [afterHole_pass hc] at h
      exact .char hc (closes_of_afterHole_eq depth cs h)
    · rw [afterHole_quote (.inl rfl), Bool.and_false] at h
      obtain ⟨tail, hends, htail⟩ := endsBefore_of_afterHole_eq (.inl rfl) h
      have hlt := hends.length_lt
      have hrest := closes_of_afterHole_eq depth tail htail
      obtain ⟨body, rfl, hbody, -⟩ := hends
      exact .string hbody hrest
    · rw [afterHole_quote (.inr rfl), Bool.and_false] at h
      obtain ⟨tail, hends, htail⟩ := endsBefore_of_afterHole_eq (.inr rfl) h
      have hlt := hends.length_lt
      have hrest := closes_of_afterHole_eq depth tail htail
      obtain ⟨body, rfl, hbody, -⟩ := hends
      exact .character hbody hrest
    · rw [afterHole_atSign] at h
      by_cases hhead : cs.head? = some '"'
      · obtain ⟨string, hcs⟩ := List.head?_eq_some_iff.1 hhead
        rw [hcs, List.cons_append, afterHole_quote (.inl rfl), beq_self_eq_true, Bool.and_self] at h
        obtain ⟨tail, hends, htail⟩ := endsBefore_of_afterHole_eq (.inl rfl) h
        have hlt : tail.length + 1 < cs.length := by
          rw [hcs]
          exact Nat.succ_lt_succ hends.length_lt
        have hrest := closes_of_afterHole_eq depth tail htail
        obtain ⟨body, rfl, hbody, hne⟩ := hends
        rw [hcs]
        exact .verbatim hbody (hne rfl) hrest
      · rw [afterHole_afterAt (head?_append_ne hhead (by decide) _)] at h
        exact .atSign hhead (closes_of_afterHole_eq depth cs h)
    · rw [afterHole_opener] at h
      exact .opening b (closes_of_afterHole_eq (depth + 1) cs h)
    · by_cases hb : b = .curly ∧ depth = 0
      · obtain ⟨rfl, rfl⟩ := hb
        have hend : cs ++ ['}', 'x'] = ['x'] := (afterHole_end false _).symm.trans h
        have hlen := congrArg List.length hend
        simp at hlen
      · rw [not_and] at hb
        rw [afterHole_closer hb] at h
        exact .closing b hb (closes_of_afterHole_eq (depth - 1) cs h)
termination_by cs.length
decreasing_by all_goals simp only [List.length_cons]; omega

/-- The brace of a hole is found, whatever follows it, exactly if the text of the hole closes. -/
theorem afterHole_eq_iff_closes (cs : List Char) :
    (∀ after, afterHole 0 false (cs ++ '}' :: after) = after) ↔ Closes 0 cs := by
  constructor
  · intro h
    exact closes_of_afterHole_eq 0 cs (h ['x'])
  · exact Closes.afterHole_eq

/-! ## The end of an interpolated string -/

theorem splitHoles_textChar {verbatim : Bool} {c : Char} (hc : isTextChar verbatim c = true) (rest : List Char) :
    splitHoles verbatim (c :: rest) = splitHoles verbatim rest := by
  simp only [isTextChar, List.contains_eq_mem, Bool.and_eq_true, Bool.not_eq_true', decide_eq_false_iff_not,
    List.mem_cons, List.not_mem_nil, or_false, not_or, Bool.or_eq_true, bne_iff_ne] at hc
  obtain ⟨⟨hq, ho, hc⟩, he⟩ := hc
  have he : ¬ (c = '\\' ∧ verbatim = false) := by
    rintro ⟨rfl, rfl⟩
    simp at he
  rw [splitHoles]
  simp [hq, ho, hc, he]

theorem splitHoles_brace (verbatim : Bool) {c : Char} (hc : c = '{' ∨ c = '}') (rest : List Char) :
    splitHoles verbatim (c :: c :: rest) = splitHoles verbatim rest := by
  rw [splitHoles]
  rcases hc with rfl | rfl <;> simp

theorem splitHoles_afterHole (verbatim : Bool) {cs : List Char} (h : cs.head? ≠ some '{') :
    (splitHoles verbatim ('{' :: cs)).2 = (splitHoles verbatim (afterHole 0 false cs)).2 := by
  have hhead : (cs.head? == some '{') = false := beq_eq_false_iff_ne.2 h
  rw [splitHoles]
  simp [hhead, afterHole]

theorem splitHoles_closing {verbatim : Bool} {rest : List Char} (h : verbatim = true → rest.head? ≠ some '"') :
    (splitHoles verbatim ('"' :: rest)).2 = rest := by
  have hd : ¬ (verbatim = true ∧ rest.head? = some '"') := fun ⟨hv, hhead⟩ => h hv hhead
  rw [splitHoles]
  simp [hd]

/-- An interpolated string whose holes close ends at its own quote. -/
theorem HoledText.splitHoles_eq {after : List Char} : ∀ {verbatim : Bool} (body : HoledText verbatim),
    body.isWellFormed = true → (∀ e ∈ body.holes, Closes 0 e.text) → (verbatim = true → after.head? ≠ some '"') →
    (splitHoles verbatim (body.text ++ '"' :: after)).2 = after
  | _, .nil, _, _, ha => splitHoles_closing ha
  | _, .char c hc rest, hw, hh, ha => by
    rw [HoledText.text, List.cons_append, splitHoles_textChar hc]
    exact rest.splitHoles_eq hw hh ha
  | _, .escape c rest, hw, hh, ha => by
    rw [HoledText.text, List.cons_append, List.cons_append, splitHoles]
    exact rest.splitHoles_eq hw hh ha
  | _, .quote rest, hw, hh, ha => by
    rw [HoledText.text, List.cons_append, List.cons_append, splitHoles]
    exact rest.splitHoles_eq hw hh ha
  | _, .brace c hc rest, hw, hh, ha => by
    rw [HoledText.text, List.cons_append, List.cons_append, splitHoles_brace _ hc]
    exact rest.splitHoles_eq hw hh ha
  | _, .hole e rest, hw, hh, ha => by
    simp only [HoledText.isWellFormed, Bool.and_eq_true, bne_iff_ne] at hw
    obtain ⟨⟨hhead, -⟩, hw⟩ := hw
    obtain ⟨he, hh⟩ := List.forall_mem_cons.1 hh
    simp only [HoledText.text, List.cons_append, List.append_assoc]
    rw [splitHoles_afterHole _ (head?_append_ne hhead (by decide) _), he.afterHole_eq]
    exact rest.splitHoles_eq hw hh ha

/-! ## Levels that take turns -/

/-- A literal whose text stands for nothing where it is taken for code, or a character without quotes. -/
def Literal.isNeutral : Literal → Bool
  | .string chars _ | .verbatim chars _ => chars.all passesHole
  | .character chars _ => chars.all fun c => c != '"' && c != '\\'

mutual

/-- Code that the reader of a hole takes for code. -/
def HoleCode.isSeen : HoleCode → Bool
  | .nil => true
  | .char _ _ rest | .marked _ _ _ _ rest | .literal _ rest => rest.isSeen
  | .group _ inner rest => inner.isSeen && rest.isSeen
  | .interpolated o body rest =>
    (if o = .dollarAt then body.holes.all fun e => !e.text.contains '"' else body.isHidden) && rest.isSeen

/-- Code that stands in a hole of a nested string: the reader takes it for text of that string, and strings in it for
code. -/
def HoleCode.isHidden : HoleCode → Bool
  | .nil => true
  | .char _ _ rest | .marked _ _ _ _ rest => rest.isHidden
  | .group _ inner rest => inner.isHidden && rest.isHidden
  | .literal l rest => l.isNeutral && rest.isHidden
  | .interpolated _ body rest => body.isSeen && rest.isHidden

/-- An interpolated string that the reader takes for code. -/
def HoledText.isSeen {verbatim : Bool} : HoledText verbatim → Bool
  | .nil => true
  | .char c _ rest | .escape c rest => passesHole c && rest.isSeen
  | .quote rest => rest.isSeen
  | .brace _ _ _ => false
  | .hole e rest => e.isSeen && rest.isSeen

/-- An interpolated string that the reader takes for a plain string. -/
def HoledText.isHidden {verbatim : Bool} : HoledText verbatim → Bool
  | .nil => true
  | .char c _ rest => c != '\\' && rest.isHidden
  | .escape _ rest | .quote rest | .brace _ _ rest => rest.isHidden
  | .hole e rest => e.isHidden && rest.isHidden

end

/-- Text that closes when it goes on a plain string that has been opened. -/
def ClosesInString (depth : Nat) (cs : List Char) : Prop :=
  ∀ body, LiteralBody '"' false body → Closes depth ('"' :: (body ++ cs))

theorem LiteralBody.append {quote : Char} {verbatim : Bool} {body more : List Char}
    (h : LiteralBody quote verbatim body) (hm : LiteralBody quote verbatim more) :
    LiteralBody quote verbatim (body ++ more) := by
  induction h with
  | nil => exact hm
  | char hc he _ ih => exact .char hc he (ih hm)
  | escape c _ ih => exact .escape c (ih hm)
  | double _ ih => exact .double (ih hm)

/-- Text without quotes and backslashes stands for itself in a literal. -/
theorem LiteralBody.of_forall {quote : Char} {verbatim : Bool} :
    ∀ {cs : List Char}, (∀ c ∈ cs, c ≠ quote ∧ (verbatim = true ∨ c ≠ '\\')) → LiteralBody quote verbatim cs
  | [], _ => .nil
  | _ :: _, h => by
    obtain ⟨⟨hq, he⟩, h⟩ := List.forall_mem_cons.1 h
    exact .char hq he (.of_forall h)

namespace ClosesInString

variable {depth : Nat} {cs : List Char}

theorem append {more : List Char} (hm : LiteralBody '"' false more) (h : ClosesInString depth cs) :
    ClosesInString depth (more ++ cs) := by
  intro body hbody
  rw [← List.append_assoc]
  exact h _ (hbody.append hm)

theorem char {c : Char} (hq : c ≠ '"') (he : c ≠ '\\') (h : ClosesInString depth cs) :
    ClosesInString depth (c :: cs) :=
  h.append (.char hq (.inr he) .nil)

theorem escape (c : Char) (h : ClosesInString depth cs) : ClosesInString depth ('\\' :: c :: cs) :=
  h.append (.escape c .nil)

/-- A quote ends the string, and what follows is code. -/
theorem quote (h : Closes depth cs) : ClosesInString depth ('"' :: cs) :=
  fun _ hbody => .string hbody h

/-- A quote in code opens the string. -/
theorem opened (h : ClosesInString depth cs) : Closes depth ('"' :: cs) :=
  h [] .nil

end ClosesInString

theorem Closes.append_passes {depth : Nat} {pre cs : List Char} (hp : pre.all passesHole = true)
    (h : Closes depth cs) : Closes depth (pre ++ cs) := by
  induction pre with
  | nil => exact h
  | cons c pre ih =>
    rw [List.all_cons, Bool.and_eq_true] at hp
    exact .char hp.1 (ih hp.2)

theorem passesHole_of_isCodeChar {c : Char} (h : isCodeChar c = true) : passesHole c = true ∧ c ≠ '"' ∧ c ≠ '\\' := by
  simp only [isCodeChar, Bool.not_eq_true', List.contains_eq_mem, decide_eq_false_iff_not, List.mem_cons,
    List.not_mem_nil, or_false, not_or] at h
  simp [passesHole, h]

/-- Where no hole has a quote, the text of a verbatim interpolated string is that of a verbatim string. -/
theorem HoledText.literalBody : ∀ (body : HoledText true), (∀ e ∈ body.holes, '"' ∉ e.text) →
    LiteralBody '"' true body.text
  | .nil, _ => .nil
  | .char c hc rest, h => by
    have hq : c ≠ '"' := by
      rintro rfl
      exact absurd hc (by decide)
    exact .char hq (.inl rfl) (rest.literalBody h)
  | .quote rest, h => .double (rest.literalBody h)
  | .brace c hc rest, h => by
    have hq : c ≠ '"' := by rcases hc with rfl | rfl <;> decide
    exact .char hq (.inl rfl) (.char hq (.inl rfl) (rest.literalBody h))
  | .hole e rest, h => by
    obtain ⟨he, h⟩ := List.forall_mem_cons.1 h
    have hcode : LiteralBody '"' true e.text := .of_forall fun c hc => ⟨ne_of_mem_of_not_mem hc he, .inl rfl⟩
    have hclose : LiteralBody '"' true ('}' :: rest.text) := .char (by decide) (.inl rfl) (rest.literalBody h)
    exact .char (by decide) (.inl rfl) (hcode.append hclose)

theorem head?_text_append_ne {cs : List Char} (hcs : cs.head? ≠ some '"') {e : HoleCode}
    (h : e.text.head? ≠ some '"') : (e.text ++ cs).head? ≠ some '"' := by
  cases htext : e.text with
  | nil => exact hcs
  | cons _ _ =>
    rw [htext] at h
    exact h

/-- A literal closes as code. -/
theorem Literal.closes_append {depth : Nat} {cs : List Char} (l : Literal)
    (hcs : l.isVerbatim = true → cs.head? ≠ some '"') (h : Closes depth cs) : Closes depth (l.text ++ cs) := by
  cases l with
  | string chars hbody =>
    simp only [Literal.text, List.cons_append, List.append_assoc]
    exact .string hbody h
  | verbatim chars hbody =>
    simp only [Literal.text, List.cons_append, List.append_assoc]
    exact .verbatim hbody (hcs rfl) h
  | character chars hbody =>
    simp only [Literal.text, List.cons_append, List.append_assoc]
    exact .character hbody h

/-- Where a string that has been opened goes on with a string, the latter is code. -/
theorem ClosesInString.turn {depth : Nat} {chars cs : List Char} (hc : chars.all passesHole = true)
    (h : ClosesInString depth cs) : ClosesInString depth ('"' :: (chars ++ '"' :: cs)) :=
  .quote (h.opened.append_passes hc)

/-- A neutral literal closes as the text of a string. -/
theorem Literal.closesInString_append {depth : Nat} {cs : List Char} (l : Literal) (hl : l.isNeutral = true)
    (h : ClosesInString depth cs) : ClosesInString depth (l.text ++ cs) := by
  cases l with
  | string chars _ =>
    simp only [Literal.text, List.cons_append, List.append_assoc]
    exact h.turn hl
  | verbatim chars _ =>
    simp only [Literal.text, List.cons_append, List.append_assoc]
    exact (h.turn hl).char (by decide) (by decide)
  | character chars _ =>
    simp only [Literal.text, List.cons_append, List.append_assoc]
    have hchars : LiteralBody '"' false chars := .of_forall (by simpa [Literal.isNeutral] using hl)
    exact ((h.char (by decide) (by decide)).append hchars).char (by decide) (by decide)

/-- The marks before the quote of an interpolated string are text in a string. -/
theorem Opener.closesInString_append {depth : Nat} {cs : List Char} (o : Opener)
    (h : ClosesInString depth ('"' :: cs)) : ClosesInString depth (o.text ++ cs) := by
  cases o with
  | dollar => exact h.char (by decide) (by decide)
  | dollarAt => exact (h.char (by decide) (by decide)).char (by decide) (by decide)
  | atDollar => exact (h.char (by decide) (by decide)).char (by decide) (by decide)

/-- The text of an interpolated string, of which the reader of a hole knows `$@"` alone to be verbatim. -/
theorem Opener.closes_append {depth : Nat} {cs : List Char} (o : Opener) (ho : o ≠ .dollarAt)
    (h : Closes depth ('"' :: cs)) : Closes depth (o.text ++ cs) := by
  have hdollar : Closes depth ('$' :: '"' :: cs) := .char (by decide) h
  cases o with
  | dollar => exact hdollar
  | dollarAt => exact absurd rfl ho
  | atDollar => exact .atSign (fun hhead => absurd (Option.some.inj hhead) (by decide)) hdollar

theorem Bracket.opener_ne (b : Bracket) : b.opener ≠ '"' ∧ b.opener ≠ '\\' := by cases b <;> decide

theorem Bracket.closer_ne (b : Bracket) : b.closer ≠ '"' ∧ b.closer ≠ '\\' := by cases b <;> decide

-- One level of nesting turns code into the text of a string and back, so the two readings are followed together.
mutual

/-- Code that is taken for code closes, before anything that does. -/
theorem HoleCode.closes_append : ∀ (e : HoleCode) {depth : Nat} {cs : List Char}, e.isWellFormed = true →
    e.isSeen = true → cs.head? ≠ some '"' → Closes depth cs → Closes depth (e.text ++ cs)
  | .nil, _, _, _, _, _, h => h
  | .char c hc rest, _, _, hw, hs, hcs, h => .char (passesHole_of_isCodeChar hc).1 (rest.closes_append hw hs hcs h)
  | .marked mark c hm hc rest, depth, cs, hw, hs, hcs, h => by
    have hrest : Closes depth (c :: (rest.text ++ cs)) :=
      .char (passesHole_of_isCodeChar hc).1 (rest.closes_append hw hs hcs h)
    rcases hm with rfl | rfl
    · exact .atSign (fun hhead => (passesHole_of_isCodeChar hc).2.1 (Option.some.inj hhead)) hrest
    · exact .char (by decide) hrest
  | .group b inner rest, depth, cs, hw, hs, hcs, h => by
    simp only [HoleCode.isWellFormed, Bool.and_eq_true] at hw
    simp only [HoleCode.isSeen, Bool.and_eq_true] at hs
    simp only [HoleCode.text, List.cons_append, List.append_assoc]
    have hclose : Closes (depth + 1) (b.closer :: (rest.text ++ cs)) :=
      .closing b (fun _ => Nat.succ_ne_zero _) (rest.closes_append hw.2 hs.2 hcs h)
    apply Closes.opening b
    exact inner.closes_append hw.1 hs.1 (fun hhead => b.closer_ne.1 (Option.some.inj hhead)) hclose
  | .literal l rest, depth, cs, hw, hs, hcs, h => by
    simp only [HoleCode.isWellFormed, Bool.and_eq_true, Bool.or_eq_true, Bool.not_eq_true', bne_iff_ne] at hw
    rw [HoleCode.text, List.append_assoc]
    refine l.closes_append (fun hl => ?_) (rest.closes_append hw.2 hs hcs h)
    exact head?_text_append_ne hcs (hw.1.resolve_left (by simp [hl]))
  | .interpolated o body rest, depth, cs, hw, hs, hcs, h => by
    simp only [HoleCode.isWellFormed, Bool.and_eq_true, Bool.or_eq_true, Bool.not_eq_true', bne_iff_ne] at hw
    simp only [HoleCode.isSeen, Bool.and_eq_true] at hs
    simp only [HoleCode.text, List.cons_append, List.append_assoc]
    have hrest := rest.closes_append hw.2 hs.2 hcs h
    by_cases ho : o = .dollarAt
    · -- here the sign next to the quote makes the reader look for a doubled one
      subst ho
      have hholes : ∀ e ∈ body.holes, '"' ∉ e.text := by simpa using hs.1
      have hnext := head?_text_append_ne hcs (hw.1.2.resolve_left nofun)
      exact .char (by decide) (.verbatim (body.literalBody hholes) hnext hrest)
    · rw [if_neg ho] at hs
      exact o.closes_append ho (body.closesInString_append hw.1.1 hs.1 (.quote hrest)).opened

/-- Code that is taken for text closes in a string, before anything that does. -/
theorem HoleCode.closesInString_append : ∀ (e : HoleCode) {depth : Nat} {cs : List Char}, e.isWellFormed = true →
    e.isHidden = true → ClosesInString depth cs → ClosesInString depth (e.text ++ cs)
  | .nil, _, _, _, _, h => h
  | .char c hc rest, _, _, hw, hs, h =>
    (rest.closesInString_append hw hs h).char (passesHole_of_isCodeChar hc).2.1 (passesHole_of_isCodeChar hc).2.2
  | .marked mark c hm hc rest, _, _, hw, hs, h => by
    have hrest := rest.closesInString_append hw hs h
    obtain ⟨-, hq, he⟩ := passesHole_of_isCodeChar hc
    rcases hm with rfl | rfl
    · exact (hrest.char hq he).char (by decide) (by decide)
    · exact hrest.escape c
  | .group b inner rest, _, _, hw, hs, h => by
    simp only [HoleCode.isWellFormed, Bool.and_eq_true] at hw
    simp only [HoleCode.isHidden, Bool.and_eq_true] at hs
    simp only [HoleCode.text, List.cons_append, List.append_assoc]
    have hrest := (rest.closesInString_append hw.2 hs.2 h).char b.closer_ne.1 b.closer_ne.2
    exact (inner.closesInString_append hw.1 hs.1 hrest).char b.opener_ne.1 b.opener_ne.2
  | .literal l rest, _, _, hw, hs, h => by
    simp only [HoleCode.isWellFormed, Bool.and_eq_true] at hw
    simp only [HoleCode.isHidden, Bool.and_eq_true] at hs
    rw [HoleCode.text, List.append_assoc]
    exact l.closesInString_append hs.1 (rest.closesInString_append hw.2 hs.2 h)
  | .interpolated o body rest, _, _, hw, hs, h => by
    simp only [HoleCode.isWellFormed, Bool.and_eq_true] at hw
    simp only [HoleCode.isHidden, Bool.and_eq_true] at hs
    simp only [HoleCode.text, List.cons_append, List.append_assoc]
    have hrest := (rest.closesInString_append hw.2 hs.2 h).opened
    exact o.closesInString_append (.quote (body.closes_append hw.1.1 hs.1 hrest))

/-- An interpolated string that is taken for code closes. -/
theorem HoledText.closes_append : ∀ {verbatim : Bool} (body : HoledText verbatim) {depth : Nat} {cs : List Char},
    body.isWellFormed = true → body.isSeen = true → Closes depth cs → Closes depth (body.text ++ cs)
  | _, .nil, _, _, _, _, h => h
  | _, .char c _ rest, _, _, hw, hs, h => by
    simp only [HoledText.isSeen, Bool.and_eq_true] at hs
    exact .char hs.1 (rest.closes_append hw hs.2 h)
  | _, .escape c rest, _, _, hw, hs, h => by
    simp only [HoledText.isSeen, Bool.and_eq_true] at hs
    exact .char (by decide) (.char hs.1 (rest.closes_append hw hs.2 h))
  | _, .quote rest, _, _, hw, hs, h => .string .nil (rest.closes_append hw hs h)
  | _, .brace _ _ _, _, _, _, hs, _ => absurd hs Bool.false_ne_true
  | _, .hole e rest, depth, cs, hw, hs, h => by
    simp only [HoledText.isWellFormed, Bool.and_eq_true] at hw
    simp only [HoledText.isSeen, Bool.and_eq_true] at hs
    simp only [HoledText.text, List.cons_append, List.append_assoc]
    have hclose : Closes (depth + 1) ('}' :: (rest.text ++ cs)) :=
      .closing .curly (fun _ => Nat.succ_ne_zero _) (rest.closes_append hw.2 hs.2 h)
    exact .opening .curly (e.closes_append hw.1.2 hs.1 nofun hclose)

/-- An interpolated string that is taken for a plain one closes in it. -/
theorem HoledText.closesInString_append : ∀ {verbatim : Bool} (body : HoledText verbatim) {depth : Nat}
    {cs : List Char}, body.isWellFormed = true → body.isHidden = true → ClosesInString depth cs →
    ClosesInString depth (body.text ++ cs)
  | _, .nil, _, _, _, _, h => h
  | _, .char c hc rest, _, _, hw, hs, h => by
    simp only [HoledText.isHidden, Bool.and_eq_true, bne_iff_ne] at hs
    have hq : c ≠ '"' := by
      rintro rfl
      simp [isTextChar] at hc
    exact (rest.closesInString_append hw hs.2 h).char hq hs.1
  | _, .escape c rest, _, _, hw, hs, h => (rest.closesInString_append hw hs h).escape c
  | _, .quote rest, _, _, hw, hs, h => .quote (rest.closesInString_append hw hs h).opened
  | _, .brace c hc rest, _, _, hw, hs, h => by
    have hne : c ≠ '"' ∧ c ≠ '\\' := by rcases hc with rfl | rfl <;> decide
    exact ((rest.closesInString_append hw hs h).char hne.1 hne.2).char hne.1 hne.2
  | _, .hole e rest, _, _, hw, hs, h => by
    simp only [HoledText.isWellFormed, Bool.and_eq_true] at hw
    simp only [HoledText.isHidden, Bool.and_eq_true] at hs
    simp only [HoledText.text, List.cons_append, List.append_assoc]
    have hrest := (rest.closesInString_append hw.2 hs.2 h).char (c := '}') (by decide) (by decide)
    exact (e.closesInString_append hw.1.2 hs.1 hrest).char (by decide) (by decide)

end

theorem HoleCode.closes_of_isSeen {e : HoleCode} (hw : e.isWellFormed = true) (hs : e.isSeen = true) :
    Closes 0 e.text := by
  have h := e.closes_append hw hs (by simp) Closes.nil
  rwa [List.append_nil] at h

/-! ## Strings that are delimited -/

/-- An interpolated string is found from its opener to its own quote, and each of its holes to its own brace. A verbatim
one is not followed by a quote, as that would be a doubled one. -/
structure Delimited (o : Opener) (body : HoledText o.isVerbatim) : Prop where
  opener (after : List Char) : interpolationBody? (o.text ++ after) = some (o.isVerbatim, after)
  brace : ∀ e ∈ body.holes, ∀ after, (splitHole 0 false false (e.text ++ '}' :: after)).2 = after
  quote (after : List Char) (ne_quote : o.isVerbatim = true → after.head? ≠ some '"') :
    (splitHoles o.isVerbatim (body.text ++ '"' :: after)).2 = after

theorem Delimited.of_closes {o : Opener} {body : HoledText o.isVerbatim} (hw : body.isWellFormed = true)
    (h : ∀ e ∈ body.holes, Closes 0 e.text) : Delimited o body where
  opener after := by cases o <;> rfl
  brace e he := (afterHole_eq_iff_closes e.text).2 (h e he)
  quote _ hafter := body.splitHoles_eq hw h hafter

theorem HoledText.isWellFormed_of_mem_holes {e : HoleCode} : ∀ {verbatim : Bool} {body : HoledText verbatim},
    body.isWellFormed = true → e ∈ body.holes → e.isWellFormed = true
  | _, .nil, _, he => absurd he List.not_mem_nil
  | _, .char _ _ rest, hw, he | _, .brace _ _ rest, hw, he => rest.isWellFormed_of_mem_holes hw he
  | _, .escape _ rest, hw, he | _, .quote rest, hw, he => rest.isWellFormed_of_mem_holes hw he
  | _, .hole first rest, hw, he => by
    simp only [HoledText.isWellFormed, Bool.and_eq_true] at hw
    rcases List.mem_cons.1 he with rfl | he
    · exact hw.1.2
    · exact rest.isWellFormed_of_mem_holes hw.2 he

/-- An interpolated string is delimited right exactly if its holes close, and that they do at any depth of nesting where
the texts that are taken for code have no quotes and brackets. -/
theorem delimited_iff_closes (o : Opener) (body : HoledText o.isVerbatim) (hw : body.isWellFormed = true) :
    (Delimited o body ↔ ∀ e ∈ body.holes, Closes 0 e.text) ∧
      ((∀ e ∈ body.holes, e.isSeen = true) → Delimited o body) := by
  refine ⟨⟨fun h e he => ?_, Delimited.of_closes hw⟩, fun h => Delimited.of_closes hw fun e he => ?_⟩
  · exact (afterHole_eq_iff_closes e.text).1 (h.brace e he)
  · exact HoleCode.closes_of_isSeen (HoledText.isWellFormed_of_mem_holes hw he) (h e he)

/-- The body of `$"{f($"{[$"{'"'}{@"\"}"]}}}","}")}"`. -/
def threeLevels : HoledText Opener.dollar.isVerbatim :=
  .hole
    (.char 'f' rfl (.group .round
      (.interpolated .dollar
        (.hole
          (.group .square
            (.interpolated .dollar
              (.hole (.literal (.character ['"'] (.of_forall (by simp))) .nil)
                (.hole (.literal (.verbatim ['\\'] (.of_forall (by simp))) .nil) .nil))
              .nil)
            .nil)
          (.brace '}' (.inr rfl) .nil))
        (.char ',' rfl (.literal (.string ['}'] (.of_forall (by simp))) .nil)))
      .nil))
    .nil

theorem delimited_iff_closes_threeLevels : threeLevels.isWellFormed = true ∧ Delimited .dollar threeLevels :=
  ⟨by decide, (delimited_iff_closes .dollar threeLevels (by decide)).2 (by decide)⟩

/-- The body of `$"{$"{f("}")}"}"`. -/
def braceInNestedString : HoledText Opener.dollar.isVerbatim :=
  .hole
    (.interpolated .dollar
      (.hole
        (.char 'f' rfl (.group .round (.literal (.string ['}'] (.of_forall (by simp))) .nil) .nil))
        .nil)
      .nil)
    .nil

/-- A brace in a string in a hole of a nested string is taken for the brace of the outer hole, and the quote after it
for the quote of the outer string. -/
theorem brace_in_nested_string : braceInNestedString.isWellFormed = true ∧ ¬ Delimited .dollar braceInNestedString := by
  refine ⟨by decide, fun h => ?_⟩
  have hend : (splitHoles false (braceInNestedString.text ++ ['"'])).2 = [')', '}', '"', '}', '"'] := by
    decide +kernel
  exact absurd (hend.symm.trans (h.quote [] (by decide))) (by decide)

end TypeDoctrine.Source
