import TypeDoctrine.Proofs.Source.Break

/-!
# Comments

A comment between two texts of code should read as a blank. The plain scan takes it so. The token scanner takes a
documentation comment for the word `doc`, and it lets block comments nest, so that one which opens another inside has no
end; the whole text is then left to the plain scan, which knows words of ASCII letters only.

So the comments that read as a blank between any two texts are those that are no documentation and do not nest
(`comment_inert_iff`). Whatever the comment, no word of its own is seen.
-/

namespace TypeDoctrine.Source

/-! ## The grammar -/

/-- Code without literals and comments. -/
structure BareCode where
  chars : List Char
  isBare : ∀ c ∈ chars, Source.isBare c = true

/-- A comment, to the end of its line or to the first closing mark. -/
inductive Comment where
  | line (body : List Char) (isLine : '\n' ∉ body)
  | block (body : List Char) (isBlock : ¬ ['*', '/'] <:+: body)

namespace Comment

def text : Comment → List Char
  | .line body _ => '/' :: '/' :: (body ++ ['\n'])
  | .block body _ => '/' :: '*' :: (body ++ ['*', '/'])

/-- The body of a documentation comment starts with an exclamation mark, or with one more slash. -/
def documentsLine : List Char → Bool
  | '!' :: _ => true
  | '/' :: body => body.head? != some '/'
  | _ => false

/-- The body of a documentation comment starts with an exclamation mark, or with one more star and text after it. -/
def documentsBlock : List Char → Bool
  | '!' :: _ => true
  | '*' :: body => body != [] && body.head? != some '*'
  | _ => false

def isDocumentation : Comment → Bool
  | .line body _ => documentsLine body
  | .block body _ => documentsBlock body

/-- A block comment has an opening mark inside, which may share the star of the closing mark. -/
def Nests : Comment → Prop
  | .line _ _ => False
  | .block body _ => ['/', '*'] <:+: body ++ ['*']

end Comment

/-! ## The end of a comment -/

theorem prefix_pair_iff {x y c : Char} {cs : List Char} : [x, y] <+: c :: cs ↔ c = x ∧ cs.head? = some y := by
  cases cs with
  | nil => simp
  | cons d cs => simp [eq_comm]

/-- Two characters are no pair of the text, nor where it starts. -/
theorem not_infix_cons {x y c : Char} {cs : List Char} (h : ¬ [x, y] <:+: c :: cs) :
    (c = x → cs.head? ≠ some y) ∧ ¬ [x, y] <:+: cs := by
  rw [List.infix_cons_iff, prefix_pair_iff, not_or, not_and] at h
  exact h

/-- A star that follows the text leaves it without the closing mark. -/
theorem head?_append_star {c : Char} {body : List Char} (h : c = '*' → body.head? ≠ some '/') (rest : List Char) :
    c = '*' → (body ++ '*' :: rest).head? ≠ some '/' := by
  cases body with
  | nil => exact fun _ => nofun
  | cons d body => exact h

theorem splitComment_body (rest : List Char) : ∀ {body : List Char}, ¬ ['*', '/'] <:+: body →
    splitComment (body ++ '*' :: '/' :: rest) = (body ++ ['*', '/'], rest)
  | [], _ => rfl
  | c :: body, h => by
    obtain ⟨hpair, h⟩ := not_infix_cons h
    have hpair := head?_append_star hpair ('/' :: rest)
    rw [List.cons_append, splitComment]
    · simp only [splitComment_body rest h, List.cons_append]
    · rintro d rfl hd
      exact hpair rfl (by rw [hd]; rfl)

theorem splitLine_cons {c : Char} {cs : List Char} (hc : c ≠ '\n') (hr : c = '\r' → cs.head? ≠ some '\n') :
    (splitLine (c :: cs)).2 = (splitLine cs).2 := by
  rw [splitLine, if_neg (by simpa using hc)]
  rintro d rfl rfl
  exact hr rfl rfl

theorem splitLine_body (rest : List Char) : ∀ {body : List Char}, '\n' ∉ body →
    (splitLine (body ++ '\n' :: rest)).2 = '\n' :: rest
  | [], _ => rfl
  | [c], h => by
    by_cases hr : c = '\r'
    · rw [hr]
      rfl
    · exact splitLine_cons (Ne.symm (by simpa using h)) fun he => absurd he hr
  | c :: d :: body, h => by
    obtain ⟨hc, h⟩ := not_or.1 (mt List.mem_cons.2 h)
    have hd : (d :: body ++ '\n' :: rest).head? ≠ some '\n' :=
      fun he => h (List.mem_cons.2 (.inl (Option.some.inj he).symm))
    rw [List.cons_append, splitLine_cons (Ne.symm hc) fun _ => hd]
    exact splitLine_body rest h

theorem splitBlock?_cons {c : Char} {cs : List Char} (hopen : c = '/' → cs.head? ≠ some '*')
    (hclose : c = '*' → cs.head? ≠ some '/') (depth : Nat) :
    splitBlock? depth (c :: cs) = (splitBlock? depth cs).map fun r => (c :: r.1, r.2) := by
  rw [splitBlock?]
  · rintro d rfl rfl
    exact hopen rfl rfl
  · rintro d rfl rfl
    exact hclose rfl rfl

/-- A block comment that opens no other ends at its own mark. -/
theorem splitBlock?_body (rest : List Char) : ∀ {body : List Char}, ¬ ['*', '/'] <:+: body →
    ¬ ['/', '*'] <:+: body ++ ['*'] → splitBlock? 0 (body ++ '*' :: '/' :: rest) = some (body, rest)
  | [], _, _ => rfl
  | c :: body, hclose, hopen => by
    obtain ⟨hclose, hbody⟩ := not_infix_cons hclose
    obtain ⟨hopen, hmore⟩ := not_infix_cons hopen
    have hopen' : c = '/' → (body ++ '*' :: '/' :: rest).head? ≠ some '*' := by
      cases body with
      | nil => exact hopen
      | cons d body => exact hopen
    rw [List.cons_append, splitBlock?_cons hopen' (head?_append_star hclose _), splitBlock?_body rest hbody hmore]
    rfl

/-- The number of closing marks. -/
def closings : List Char → Nat
  | '*' :: '/' :: rest => closings rest + 1
  | _ :: rest => closings rest
  | [] => 0

theorem closings_cons {c : Char} {cs : List Char} (h : c = '*' → cs.head? ≠ some '/') :
    closings (c :: cs) = closings cs := by
  rw [closings]
  rintro d rfl rfl
  exact h rfl rfl

theorem closings_le_cons (c : Char) (cs : List Char) : closings cs ≤ closings (c :: cs) := by
  by_cases h : c = '*' ∧ cs.head? = some '/'
  · obtain ⟨rfl, hhead⟩ := h
    obtain ⟨tail, rfl⟩ := List.head?_eq_some_iff.1 hhead
    rw [closings, closings_cons fun h => absurd h (by decide)]
    exact Nat.le_succ _
  · exact Nat.le_of_eq (closings_cons (by simpa using h)).symm

theorem closings_of_notMem : ∀ {cs : List Char}, '/' ∉ cs → closings cs = 0
  | [], _ => rfl
  | c :: cs, h => by
    obtain ⟨-, h⟩ := not_or.1 (mt List.mem_cons.2 h)
    rw [closings_cons fun _ hhead => h (List.mem_of_head? hhead)]
    exact closings_of_notMem h

theorem closings_body (rest : List Char) : ∀ {body : List Char}, ¬ ['*', '/'] <:+: body →
    closings (body ++ '*' :: '/' :: rest) = closings rest + 1
  | [], _ => rfl
  | c :: body, h => by
    obtain ⟨hpair, h⟩ := not_infix_cons h
    rw [List.cons_append, closings_cons (head?_append_star hpair _)]
    exact closings_body rest h

/-- A comment ends at its own closing mark and after those of the comments around which it stands. -/
theorem lt_closings_of_splitBlock? {depth : Nat} {cs : List Char} {r : List Char × List Char}
    (h : splitBlock? depth cs = some r) : depth < closings cs := by
  fun_induction splitBlock? depth cs generalizing r with
  | case1 depth rest ih =>
    obtain ⟨q, hq, -⟩ := Option.map_eq_some_iff.1 h
    have hmore := Nat.le_trans (closings_le_cons '*' rest) (closings_le_cons '/' _)
    exact Nat.lt_of_lt_of_le (Nat.lt_of_succ_lt (ih hq)) hmore
  | case2 rest => exact Nat.succ_pos _
  | case3 rest depth ih =>
    obtain ⟨q, hq, -⟩ := Option.map_eq_some_iff.1 h
    exact Nat.succ_lt_succ (ih hq)
  | case4 depth c rest _ _ ih =>
    obtain ⟨q, hq, -⟩ := Option.map_eq_some_iff.1 h
    exact Nat.lt_of_lt_of_le (ih hq) (closings_le_cons c rest)
  | case5 => simp at h

/-- A block comment that opens another has no end, as there is one closing mark for both. -/
theorem splitBlock?_nests {rest : List Char} (hrest : '/' ∉ rest) : ∀ {body : List Char},
    ¬ ['*', '/'] <:+: body → ['/', '*'] <:+: body ++ ['*'] → splitBlock? 0 (body ++ '*' :: '/' :: rest) = none
  | [], _, h => absurd h (by decide)
  | c :: body, hclose, hopen => by
    have hone : closings (c :: (body ++ '*' :: '/' :: rest)) = 1 := by
      rw [← List.cons_append, closings_body rest hclose, closings_of_notMem hrest]
    obtain ⟨hclose, hbody⟩ := not_infix_cons hclose
    have hhead : (body ++ '*' :: '/' :: rest).head? = (body ++ ['*']).head? := by cases body <;> rfl
    rw [List.cons_append]
    by_cases hpair : c = '/' ∧ (body ++ ['*']).head? = some '*'
    · -- one level down, two closing marks are needed and one is left
      obtain ⟨rfl, hstar⟩ := hpair
      obtain ⟨tail, htail⟩ := List.head?_eq_some_iff.1 (hhead.trans hstar)
      rw [htail] at hone ⊢
      cases hsplit : splitBlock? 1 tail with
      | none => rw [splitBlock?, hsplit, Option.map_none]
      | some r =>
        have htwo := lt_closings_of_splitBlock? hsplit
        have hmore := Nat.le_trans (closings_le_cons '*' tail) (closings_le_cons '/' _)
        omega
    · rw [List.cons_append, List.infix_cons_iff, prefix_pair_iff] at hopen
      rw [splitBlock?_cons (by rw [hhead]; simpa using hpair) (head?_append_star hclose _),
        splitBlock?_nests hrest hbody (hopen.resolve_left hpair), Option.map_none]

/-! ## The token scanner -/

theorem scan?_of_dropSpacing {cs rest : List Char} (h : dropSpacing cs = dropSpacing rest) : scan? cs = scan? rest := by
  rw [scan?_eq, scan?_eq rest, h]

theorem scan?_newline (rest : List Char) : scan? ('\n' :: rest) = scan? rest :=
  scan?_spacing (by decide) rest

theorem dropSpacing_line (cs : List Char) :
    dropSpacing ('/' :: '/' :: cs) = if isPlainLine cs then dropSpacing (splitLine cs).2 else '/' :: '/' :: cs := by
  rw [dropSpacing.eq_def]
  simp [show isSpacing '/' = false by decide]

theorem dropSpacing_block (cs : List Char) :
    dropSpacing ('/' :: '*' :: cs) =
      if isPlainBlock cs then (splitBlock? 0 cs).elim ('/' :: '*' :: cs) (dropSpacing ·.2) else '/' :: '*' :: cs := by
  have hstar : (some '*' == some '/') = false := by decide
  rw [dropSpacing.eq_def]
  simp only [show isSpacing '/' = false by decide, hstar, List.head?_cons, List.drop_succ_cons, List.drop_zero,
    beq_self_eq_true, Bool.true_and, Bool.false_and, Bool.false_eq_true, if_false]
  split
  · split
    · next h => rw [show splitBlock? 0 cs = _ from h, Option.elim_some]
    · next h => rw [show splitBlock? 0 cs = _ from h, Option.elim_none]
  · rfl

/-- A comment where a token should start is documentation or no token. -/
theorem nextToken?_comment {d : Char} (hd : d = '/' ∨ d = '*') {cs : List Char}
    (h : documentation? ('/' :: d :: cs) = none) : nextToken? ('/' :: d :: cs) = none := by
  have hliteral : afterLiteral? ('/' :: d :: cs) = none :=
    afterLiteral?_of_not_isDigit (afterText?_of_bareTail (.broken (by decide) _)) (by decide)
  have hmark : afterPunctuation? ('/' :: d :: cs) = none := by rcases hd with rfl | rfl <;> rfl
  have hname : splitNameToken? ('/' :: d :: cs) = none := by
    rw [splitNameToken?_of_bareTail (.broken (by decide) _)]
    rfl
  have herror : errorMark.isPrefixOf ('/' :: d :: cs) = false := isPrefixOf_errorMark rfl
  unfold nextToken?
  simp only [h, herror, List.head?_cons, Option.bind_some, show bracketToken? '/' = none from rfl, hliteral, hmark,
    hname, Bool.false_eq_true, if_false, Option.map_none]

theorem isPlainLine_body (body rest : List Char) :
    isPlainLine (body ++ '\n' :: rest) = !Comment.documentsLine body := by
  cases body with
  | nil => rfl
  | cons c body =>
    by_cases hc : c = '!' ∨ c = '/'
    · rcases hc with rfl | rfl
      · rfl
      · cases body with
        | nil => rfl
        | cons d body => by_cases hd : d = '/' <;> simp [isPlainLine, Comment.documentsLine, hd]
    · rw [not_or] at hc
      simp [isPlainLine, Comment.documentsLine, hc]

theorem isPlainBlock_body {body : List Char} (h : ¬ ['*', '/'] <:+: body) (rest : List Char) :
    isPlainBlock (body ++ '*' :: '/' :: rest) = !Comment.documentsBlock body := by
  cases body with
  | nil => rfl
  | cons c body =>
    by_cases hc : c = '!' ∨ c = '*'
    · rcases hc with rfl | rfl
      · rfl
      · cases body with
        | nil => rfl
        | cons d body =>
          have hslash : d ≠ '/' := fun hd => (not_infix_cons h).1 rfl (congrArg some hd)
          by_cases hd : d = '*' <;> simp [isPlainBlock, Comment.documentsBlock, hd, hslash]
    · rw [not_or] at hc
      simp [isPlainBlock, Comment.documentsBlock, hc]

theorem documentation?_line {c : Char} {body : List Char} (rest : List Char)
    (h : Comment.documentsLine (c :: body) = true) :
    documentation? ('/' :: '/' :: c :: (body ++ '\n' :: rest)) = some (splitLine (body ++ '\n' :: rest)) := by
  by_cases hc : c = '!' ∨ c = '/'
  · rcases hc with rfl | rfl
    · rfl
    · cases body with
      | nil => rfl
      | cons d body =>
        have hd : d ≠ '/' := by simpa [Comment.documentsLine] using h
        simp [documentation?, hd]
  · rw [not_or] at hc
    simp [Comment.documentsLine, hc] at h

theorem documentation?_block {c : Char} {body : List Char} (rest : List Char) :
    documentation? ('/' :: '*' :: c :: (body ++ '*' :: '/' :: rest)) =
      if Comment.documentsBlock (c :: body) then splitBlock? 0 (body ++ '*' :: '/' :: rest) else none := by
  by_cases hc : c = '!' ∨ c = '*'
  · rcases hc with rfl | rfl
    · rfl
    · cases body with
      | nil => rfl
      | cons d body => by_cases hd : d = '*' <;> simp [documentation?, Comment.documentsBlock, hd]
  · rw [not_or] at hc
    simp [documentation?, Comment.documentsBlock, hc]

theorem Comment.line_append {body : List Char} (h : '\n' ∉ body) (rest : List Char) :
    (Comment.line body h).text ++ rest = '/' :: '/' :: (body ++ '\n' :: rest) := by
  simp [Comment.text]

theorem Comment.block_append {body : List Char} (h : ¬ ['*', '/'] <:+: body) (rest : List Char) :
    (Comment.block body h).text ++ rest = '/' :: '*' :: (body ++ '*' :: '/' :: rest) := by
  simp [Comment.text]

theorem Comment.exists_append_eq_cons (c : Comment) (rest : List Char) : ∃ tail, c.text ++ rest = '/' :: tail := by
  cases c <;> exact ⟨_, rfl⟩

/-- A comment that is no documentation and opens no other is not seen. -/
theorem scan?_silent {c : Comment} (hd : c.isDocumentation = false) (hn : ¬ c.Nests) (rest : List Char) :
    scan? (c.text ++ rest) = scan? rest := by
  cases c with
  | line body hbody =>
    have hplain : isPlainLine (body ++ '\n' :: rest) = true := by
      rw [isPlainLine_body, show Comment.documentsLine body = false from hd]
      rfl
    rw [← scan?_newline rest, Comment.line_append]
    apply scan?_of_dropSpacing
    rw [dropSpacing_line, if_pos hplain, splitLine_body rest hbody]
  | block body hbody =>
    have hplain : isPlainBlock (body ++ '*' :: '/' :: rest) = true := by
      rw [isPlainBlock_body hbody, show Comment.documentsBlock body = false from hd]
      rfl
    rw [Comment.block_append]
    apply scan?_of_dropSpacing
    rw [dropSpacing_block, if_pos hplain, splitBlock?_body rest hbody hn, Option.elim_some]

/-- A comment that opens another is no token. -/
theorem scan?_nests {c : Comment} (hn : c.Nests) {rest : List Char} (hrest : '/' ∉ rest) :
    scan? (c.text ++ rest) = none := by
  cases c with
  | line => exact hn.elim
  | block body hbody =>
    have hopen : ['/', '*'] <:+: body ++ ['*'] := hn
    have hkept : dropSpacing ('/' :: '*' :: (body ++ '*' :: '/' :: rest)) =
        '/' :: '*' :: (body ++ '*' :: '/' :: rest) := by
      rw [dropSpacing_block, splitBlock?_nests hrest hbody hopen, Option.elim_none, ite_self]
    have hdocument : documentation? ('/' :: '*' :: (body ++ '*' :: '/' :: rest)) = none := by
      cases body with
      | nil => exact absurd hopen (by decide)
      | cons c body =>
        rw [List.cons_append, documentation?_block]
        split
        · next hdoc =>
          -- the mark of documentation is no slash, so the opening mark comes after it
          have hc : c ≠ '/' := by
            rintro rfl
            exact absurd hdoc nofun
          rw [List.cons_append, List.infix_cons_iff, prefix_pair_iff] at hopen
          exact splitBlock?_nests hrest (not_infix_cons hbody).2 (hopen.resolve_left fun h => hc h.1)
        · rfl
    rw [Comment.block_append, scan?_token hkept, nextToken?_comment (.inr rfl) hdocument, Option.bind_none]

/-- A documentation comment is a word or no token. -/
theorem scan?_documentation {c : Comment} (hd : c.isDocumentation = true) (hn : ¬ c.Nests) (rest : List Char) :
    scan? (c.text ++ rest) = none ∨ scan? (c.text ++ rest) = (scan? rest).map (.word "doc".toList :: ·) := by
  -- the comment is read as documentation with some text, before a tail that reads as the rest does
  have hread {cs tail : List Char} {d : Char} {text : List Char} (hkept : dropSpacing ('/' :: d :: cs) = '/' :: d :: cs)
      (hdocument : documentation? ('/' :: d :: cs) = some (text, tail)) (htail : scan? tail = scan? rest) :
      scan? ('/' :: d :: cs) = none ∨ scan? ('/' :: d :: cs) = (scan? rest).map (.word "doc".toList :: ·) := by
    rw [scan?_token hkept]
    unfold nextToken?
    rw [hdocument]
    dsimp only
    split
    · exact .inl rfl
    · rw [Option.bind_some, htail]
      exact .inr rfl
  cases c with
  | line body hbody =>
    cases body with
    | nil => exact absurd hd nofun
    | cons c body =>
      have hdoc : Comment.documentsLine (c :: body) = true := hd
      rw [Comment.line_append]
      refine hread ?_ (documentation?_line rest hdoc) ?_
      · rw [dropSpacing_line, isPlainLine_body, hdoc]
        rfl
      · rw [splitLine_body rest fun h => hbody (List.mem_cons_of_mem c h), scan?_newline]
  | block body hbody =>
    cases body with
    | nil => exact absurd hd nofun
    | cons c body =>
      have hdoc : Comment.documentsBlock (c :: body) = true := hd
      have hopen : ¬ ['/', '*'] <:+: c :: (body ++ ['*']) := hn
      have hdocument : documentation? ('/' :: '*' :: c :: (body ++ '*' :: '/' :: rest)) = some (body, rest) := by
        rw [documentation?_block, if_pos hdoc]
        exact splitBlock?_body rest (not_infix_cons hbody).2 (not_infix_cons hopen).2
      rw [Comment.block_append]
      refine hread ?_ hdocument rfl
      rw [dropSpacing_block, isPlainBlock_body hbody, hdoc]
      rfl

/-! ## The plain scan and the expansion -/

theorem takeWhile_line {body : List Char} (h : '\n' ∉ body) (rest : List Char) :
    (body ++ '\n' :: rest).takeWhile (· != '\n') = body ∧
      (body ++ '\n' :: rest).dropWhile (· != '\n') = '\n' :: rest := by
  have hbody : ∀ c ∈ body, (c != '\n') = true := fun c hc => bne_iff_ne.2 (ne_of_mem_of_not_mem hc h)
  rw [List.takeWhile_append_of_pos hbody, List.dropWhile_append_of_pos hbody]
  simp

/-- A comment has no words. -/
theorem plainWords_comment (c : Comment) (rest : List Char) : plainWords (c.text ++ rest) = plainWords rest := by
  cases c with
  | line body hbody =>
    have hline : '\n' ∉ '/' :: body := by simpa using hbody
    rw [Comment.line_append, plainWords, if_pos (by simp), ← List.cons_append, (takeWhile_line hline rest).2]
    exact plainWords_skip rest (by decide) (by decide) (by decide)
  | block body hbody =>
    rw [Comment.block_append, plainWords, if_neg (by simp), if_pos (by simp)]
    simp [splitComment_body rest hbody]

/-- Comments are copied, whatever they hold. -/
theorem expandFrom_comment (c : Comment) (rest : List Char) :
    expandFrom false (c.text ++ rest) = c.text ++ expandFrom false rest := by
  cases c with
  | line body hbody =>
    have hline : '\n' ∉ '/' :: body := by simpa using hbody
    obtain ⟨htaken, hdropped⟩ := takeWhile_line hline rest
    rw [Comment.line_append, Comment.line_append, expandFrom.eq_2, if_pos (by simp), ← List.cons_append, htaken,
      hdropped, expandFrom_cons (by decide)]
    simp
  | block body hbody =>
    rw [Comment.block_append, Comment.block_append, expandFrom.eq_2, if_neg (by simp), if_pos (by simp)]
    simp [splitComment_body rest hbody]

/-! ## Code around a comment -/

/-- Without the byte order mark. -/
def dropMark (cs : List Char) : List Char :=
  if cs.head? == some '\uFEFF' then cs.drop 1 else cs

/-- The names among tokens whose brackets match, or else the words of the plain scan. -/
def namesOr (words : List (List Char)) : Option (List Token) → List (List Char)
  | some ts => if balanced [] ts then Token.names ts else words
  | none => words

theorem mentions_eq_namesOr (cs : List Char) : mentions cs = namesOr (plainWords cs) (scan? (dropMark cs)) := by
  unfold mentions tokens? dropMark namesOr
  dsimp only
  cases scan? (if cs.head? == some '\uFEFF' then cs.drop 1 else cs) with
  | none => rfl
  | some ts =>
    dsimp only
    cases balanced [] ts <;> rfl

theorem dropMark_suffix (cs : List Char) : dropMark cs <:+ cs := by
  unfold dropMark
  split
  · exact List.drop_suffix 1 cs
  · exact List.suffix_refl cs

theorem dropMark_append {d : Char} (hd : d ∈ breaks) (cs rest : List Char) :
    dropMark (cs ++ d :: rest) = dropMark cs ++ d :: rest := by
  cases cs with
  | nil =>
    have hne : d ≠ '\uFEFF' := forall_mem_breaks (p := fun d => d ≠ '\uFEFF') (by decide) hd
    simp [dropMark, hne]
  | cons c cs =>
    simp only [dropMark, List.cons_append, List.head?_cons, List.drop_succ_cons, List.drop_zero]
    split <;> rfl

/-- What bare code mentions before a break: the tokens of both texts or the words of both. -/
theorem mentions_append {a : List Char} (ha : ∀ c ∈ a, isBare c = true) {d : Char} (hd : d ∈ breaks) {rest : List Char}
    (hmark : (dropMark a).getLast? = some '(' → errorMark.isPrefixOf ('(' :: d :: rest) = false) :
    mentions (a ++ d :: rest) = namesOr (plainWords a ++ plainWords (d :: rest))
      ((scan? (dropMark a)).bind fun ts => (scan? (d :: rest)).map (ts ++ ·)) := by
  have hcode : ∀ c ∈ dropMark a, isBare c = true := fun c hc => ha c ((dropMark_suffix a).subset hc)
  rw [mentions_eq_namesOr, dropMark_append hd, scan?_append hd _ hcode hmark, plainWords_append hd rest a ha]

theorem mentions_blank {a : List Char} (ha : ∀ c ∈ a, isBare c = true) (b : List Char) :
    mentions (a ++ ' ' :: b) = namesOr (plainWords a ++ plainWords b)
      ((scan? (dropMark a)).bind fun ts => (scan? b).map (ts ++ ·)) := by
  rw [mentions_append ha (by decide) fun _ => rfl, scan?_blank, reads_plainWords.blank]

theorem plainWords_between {a : List Char} (ha : ∀ c ∈ a, isBare c = true) (c : Comment) (b : List Char) :
    plainWords (a ++ (c.text ++ b)) = plainWords (a ++ ' ' :: b) := by
  obtain ⟨tail, htail⟩ := c.exists_append_eq_cons b
  rw [htail, plainWords_append (by decide) tail a ha, plainWords_append (by decide) b a ha, ← htail,
    plainWords_comment, reads_plainWords.blank]

theorem mentions_comment {a : List Char} (ha : ∀ c ∈ a, isBare c = true) (c : Comment) {b : List Char}
    (hmark : (dropMark a).getLast? = some '(' → errorMark.isPrefixOf ('(' :: (c.text ++ b)) = false) :
    mentions (a ++ (c.text ++ b)) = namesOr (plainWords a ++ plainWords b)
      ((scan? (dropMark a)).bind fun ts => (scan? (c.text ++ b)).map (ts ++ ·)) := by
  obtain ⟨tail, htail⟩ := c.exists_append_eq_cons b
  rw [← plainWords_comment c b, htail]
  rw [htail] at hmark
  exact mentions_append ha (by decide) hmark

/-- Tokens that leave the open brackets as they are can be put anywhere. -/
theorem balanced_insert {xs us : List Token} (h : ∀ stack, balanced stack (xs ++ us) = balanced stack us) :
    ∀ (ts : List Token) (stack : List Bracket), balanced stack (ts ++ (xs ++ us)) = balanced stack (ts ++ us)
  | [], stack => h stack
  | t :: ts, stack => by
    have ih := balanced_insert h ts
    cases t with
    | word name => simpa [balanced] using ih stack
    | other => simpa [balanced] using ih stack
    | opening b => simpa [balanced] using ih (b :: stack)
    | closing b =>
      cases stack with
      | nil => rfl
      | cons top stack => simp [balanced, ih stack]

theorem namesOr_insert (ts xs us : List Token) (h : ∀ stack, balanced stack (xs ++ us) = balanced stack us)
    (words : List (List Char)) : namesOr words (some (ts ++ (xs ++ us))) =
      if balanced [] (ts ++ us) then Token.names ts ++ (Token.names xs ++ Token.names us) else words := by
  simp only [namesOr, balanced_insert h, names_append]

/-- The error mark is a bracket pair around a silent comment. -/
theorem errorMark_comment {c : Comment} {b : List Char}
    (h : errorMark.isPrefixOf ('(' :: (c.text ++ b)) = true) :
    c.isDocumentation = false ∧ ¬ c.Nests ∧
      ∃ tail, b = ')' :: tail ∧ '(' :: (c.text ++ b) = errorMark ++ tail := by
  have hmark : errorMark = '(' :: '/' :: '*' :: (['E', 'R', 'R', 'O', 'R'] ++ ['*', '/', ')']) := by decide
  obtain ⟨tail, htail⟩ := List.isPrefixOf_iff_prefix.1 h
  have htail' := htail
  rw [hmark] at htail'
  cases c with
  | line body hbody =>
    rw [Comment.line_append] at htail'
    simp only [List.cons_append, List.cons.injEq] at htail'
    exact absurd htail'.2.2.1 (by decide)
  | block body hbody =>
    rw [Comment.block_append] at htail'
    simp only [List.cons_append, List.cons.injEq, true_and] at htail'
    -- both texts are split after the first closing mark
    have herror : ¬ ['*', '/'] <:+: ['E', 'R', 'R', 'O', 'R'] := by decide
    have hopen : ¬ ['/', '*'] <:+: ['E', 'R', 'R', 'O', 'R'] ++ ['*'] := by decide
    have hsplit : splitComment (['E', 'R', 'R', 'O', 'R'] ++ '*' :: '/' :: ')' :: tail) =
        splitComment (body ++ '*' :: '/' :: b) :=
      congrArg splitComment htail'
    rw [splitComment_body _ herror, splitComment_body b hbody] at hsplit
    obtain ⟨hbody', rfl⟩ := Prod.mk.inj hsplit
    obtain rfl := List.append_cancel_right hbody'
    exact ⟨rfl, hopen, tail, rfl, htail.symm⟩

theorem scan?_errorMark {cs rest : List Char} (h : '(' :: cs = errorMark ++ rest) :
    scan? ('(' :: cs) = (scan? rest).map (.other :: ·) := by
  refine scan?_cons (by decide) (by decide) ?_
  unfold nextToken?
  rw [documentation?_of_ne cs (by decide), h]
  simp

theorem scan?_brackets (rest : List Char) :
    scan? ('(' :: ' ' :: ')' :: rest) = (scan? rest).map (.opening .round :: .closing .round :: ·) := by
  have hopening : nextToken? ('(' :: ' ' :: ')' :: rest) = some (.opening .round, ' ' :: ')' :: rest) :=
    nextToken?_bracket rfl (ends_cons _)
  have hclosing : nextToken? (')' :: rest) = some (.closing .round, rest) := by
    unfold nextToken?
    rw [documentation?_of_ne rest (by decide)]
    rfl
  rw [scan?_cons (by decide) (by decide) hopening, scan?_blank, scan?_cons (by decide) (by decide) hclosing]
  exact Option.map_map _ _ _

/-- A comment that is no documentation and opens no other reads as a blank. -/
theorem mentions_silent {a : List Char} (ha : ∀ c ∈ a, isBare c = true) {c : Comment}
    (hd : c.isDocumentation = false) (hn : ¬ c.Nests) (b : List Char) :
    mentions (a ++ (c.text ++ b)) = mentions (a ++ ' ' :: b) := by
  by_cases hmark : (dropMark a).getLast? = some '(' → errorMark.isPrefixOf ('(' :: (c.text ++ b)) = false
  · rw [mentions_comment ha c hmark, mentions_blank ha, scan?_silent hd hn]
  · -- the comment completes an error mark, which reads as nothing where the bracket pair would
    obtain ⟨hlast, hprefix⟩ := Classical.not_imp.1 hmark
    obtain ⟨-, -, tail, rfl, htext⟩ := errorMark_comment (by simpa using hprefix)
    obtain ⟨pre, hpre⟩ := List.getLast?_eq_some_iff.1 hlast
    have hcode : ∀ e ∈ pre, isBare e = true := fun e he =>
      ha e ((dropMark_suffix a).subset (by rw [hpre]; exact List.mem_append_left _ he))
    have hscan (rest : List Char) : scan? (dropMark a ++ rest) =
        (scan? pre).bind fun ts => (scan? ('(' :: rest)).map (ts ++ ·) := by
      rw [hpre, List.append_assoc]
      exact scan?_append (by decide) pre hcode fun _ => rfl
    have hdrop : dropMark (a ++ (c.text ++ ')' :: tail)) = dropMark a ++ (c.text ++ ')' :: tail) := by
      obtain ⟨comment, hcomment⟩ := c.exists_append_eq_cons (')' :: tail)
      rw [hcomment]
      exact dropMark_append (by decide) a comment
    rw [mentions_eq_namesOr, mentions_eq_namesOr, plainWords_between ha, hdrop, dropMark_append (by decide), hscan,
      hscan, scan?_errorMark htext, scan?_brackets]
    cases scan? pre with
    | none => rfl
    | some ts =>
      cases scan? tail with
      | none => rfl
      | some us =>
        have hother := namesOr_insert ts [.other] us fun _ => rfl
        have hbrackets := namesOr_insert ts [.opening .round, .closing .round] us fun _ => rfl
        exact (hother _).trans (hbrackets _).symm

/-- Any other comment leaves the text to the plain scan, or adds a word. -/
theorem mentions_seen {a b : List Char} (ha : ∀ c ∈ a, isBare c = true) (hb : '/' ∉ b) {c : Comment}
    (h : ¬ (c.isDocumentation = false ∧ ¬ c.Nests)) :
    mentions (a ++ (c.text ++ b)) = plainWords (a ++ ' ' :: b) ∨
      ∃ ts us, mentions (a ++ ' ' :: b) = Token.names ts ++ Token.names us ∧
        mentions (a ++ (c.text ++ b)) = Token.names ts ++ "doc".toList :: Token.names us := by
  have hmark : errorMark.isPrefixOf ('(' :: (c.text ++ b)) = false := by
    rw [← Bool.not_eq_true]
    intro hprefix
    obtain ⟨hd, hn, -⟩ := errorMark_comment hprefix
    exact h ⟨hd, hn⟩
  have hscan : scan? (c.text ++ b) = none ∨ scan? (c.text ++ b) = (scan? b).map (.word "doc".toList :: ·) := by
    by_cases hn : c.Nests
    · exact .inl (scan?_nests hn hb)
    · exact scan?_documentation (by simpa [hn] using h) hn b
  have hwords : plainWords (a ++ ' ' :: b) = plainWords a ++ plainWords b := by
    rw [plainWords_append (by decide) b a ha, reads_plainWords.blank]
  rw [mentions_comment ha c fun _ => hmark, mentions_blank ha, hwords]
  cases scan? (dropMark a) with
  | none => exact .inl rfl
  | some ts =>
    rcases hscan with hscan | hscan
    · rw [hscan]
      exact .inl rfl
    · rw [hscan]
      cases scan? b with
      | none => exact .inl rfl
      | some us =>
        -- the word changes no bracket, so it is seen exactly where the tokens around it are
        have hword := namesOr_insert ts [.word "doc".toList] us (fun _ => rfl) (plainWords a ++ plainWords b)
        by_cases hbalanced : balanced [] (ts ++ us) = true
        · rw [if_pos hbalanced] at hword
          refine .inr ⟨ts, us, ?_, hword⟩
          simp [namesOr, hbalanced, names_append]
        · rw [if_neg hbalanced] at hword
          exact .inl hword

/-! ## Identifiers -/

/-- A text with code before and after it. -/
def between (a : BareCode) (middle : List Char) (b : BareCode) : String :=
  String.ofList (a.chars ++ (middle ++ b.chars))

theorem BareCode.notMem (a : BareCode) {c : Char} (hc : Source.isBare c = false) : c ∉ a.chars :=
  fun h => absurd (a.isBare c h) (by simp [hc])

theorem identifiers_comment (a b : BareCode) (c : Comment) :
    identifiers (between a c.text b) = (mentions (a.chars ++ (c.text ++ b.chars))).eraseDups.map String.ofList := by
  have hplain (code : BareCode) : ∀ c ∈ code.chars, isPlain c = true := fun c hc => isPlain_of_isBare (code.isBare c hc)
  have hexpand : expand (a.chars ++ (c.text ++ b.chars)) = a.chars ++ (c.text ++ b.chars) := by
    rw [expand]
    split
    · have hrest := expandFrom_append (hplain b) []
      rw [List.append_nil] at hrest
      rw [expandFrom_append (hplain a), expandFrom_comment, hrest]
      simp [expandFrom]
    · rfl
  rw [identifiers, between, String.toList_ofList, hexpand]

theorem identifiers_blank (a b : BareCode) :
    identifiers (between a [' '] b) = (mentions (a.chars ++ ' ' :: b.chars)).eraseDups.map String.ofList := by
  have hdollar : '$' ∉ a.chars ++ ' ' :: b.chars := by
    simp [a.notMem (c := '$') (by decide), b.notMem (c := '$') (by decide)]
  rw [identifiers, between, String.toList_ofList]
  exact congrArg (fun cs => (mentions cs).eraseDups.map String.ofList) (expand_of_not_mem hdollar)

/-- Code with an identifier that is no word of ASCII letters. -/
def accented : BareCode :=
  ⟨['é'], List.all_eq_true.1 (by decide)⟩

def noCode : BareCode :=
  ⟨[], fun _ h => absurd h List.not_mem_nil⟩

theorem identifiers_accented : identifiers (between accented [' '] noCode) = ["é"] := by
  have hmentions : mentions ['é', ' '] = [['é']] := by decide +kernel
  rw [identifiers_blank]
  exact congrArg (fun l => l.eraseDups.map String.ofList) hmentions

/-- Where a comment does not read as a blank, the accented identifier is lost or has company. -/
theorem identifiers_seen {c : Comment} (h : ¬ (c.isDocumentation = false ∧ ¬ c.Nests)) :
    identifiers (between accented c.text noCode) = [] ∨ "doc" ∈ identifiers (between accented c.text noCode) := by
  rw [identifiers_comment]
  rcases mentions_seen accented.isBare (noCode.notMem rfl) h with hplain | ⟨ts, us, -, hdoc⟩
  · have hnone : plainWords (accented.chars ++ ' ' :: noCode.chars) = [] := by decide +kernel
    rw [hplain, hnone]
    exact .inl rfl
  · rw [hdoc]
    refine .inr (List.mem_map.2 ⟨"doc".toList, ?_, String.ofList_toList⟩)
    simp

theorem mem_identifiers_comment (a b : BareCode) (c : Comment) {w : String}
    (h : w ∈ identifiers (between a c.text b)) :
    w = "doc" ∨ w ∈ identifiers (between a [' '] b) ∨
      w ∈ (plainWords (a.chars ++ ' ' :: b.chars)).map String.ofList := by
  by_cases hc : c.isDocumentation = false ∧ ¬ c.Nests
  · rw [identifiers_comment, mentions_silent a.isBare hc.1 hc.2, ← identifiers_blank] at h
    exact .inr (.inl h)
  · rw [identifiers_comment, List.mem_map] at h
    rw [identifiers_blank]
    obtain ⟨name, hname, rfl⟩ := h
    rw [List.mem_eraseDups] at hname
    rcases mentions_seen a.isBare (b.notMem rfl) hc with hplain | ⟨ts, us, hblank, hdoc⟩
    · rw [hplain] at hname
      exact .inr (.inr (List.mem_map_of_mem hname))
    · rw [hdoc, List.mem_append, List.mem_cons] at hname
      rw [hblank]
      rcases hname with hname | rfl | hname
      · exact .inr (.inl (List.mem_map_of_mem (List.mem_eraseDups.2 (List.mem_append_left _ hname))))
      · exact .inl String.ofList_toList
      · exact .inr (.inl (List.mem_map_of_mem (List.mem_eraseDups.2 (List.mem_append_right _ hname))))

/-- A comment reads as a blank between all texts of code if and only if it is no documentation and opens no other. At
any rate it adds no identifier but `doc` to those that the two scanners find without it. -/
theorem comment_inert_iff (c : Comment) :
    ((∀ a b : BareCode, identifiers (between a c.text b) = identifiers (between a [' '] b)) ↔
      c.isDocumentation = false ∧ ¬ c.Nests) ∧
    ∀ a b : BareCode, identifiers (between a c.text b) ⊆
      "doc" :: (identifiers (between a [' '] b) ++ (plainWords (a.chars ++ ' ' :: b.chars)).map String.ofList) := by
  refine ⟨⟨fun h => ?_, fun h a b => ?_⟩, fun a b w hw => ?_⟩
  · by_cases hc : c.isDocumentation = false ∧ ¬ c.Nests
    · exact hc
    · have hseen := identifiers_seen hc
      rw [h accented noCode, identifiers_accented] at hseen
      exact absurd hseen (by decide)
  · rw [identifiers_comment, identifiers_blank, mentions_silent a.isBare h.1 h.2]
  · rw [List.mem_cons, List.mem_append]
    exact mem_identifiers_comment a b c hw

/-- The comment `/*/ $"{ // */`. -/
def hardNote : Comment :=
  .block ['/', ' ', '$', '"', '{', ' ', '/', '/', ' '] (by decide)

theorem comment_inert_iff_hardNote : hardNote.isDocumentation = false ∧ ¬ hardNote.Nests ∧
    identifiers (between accented hardNote.text noCode) = ["é"] := by
  have hnests : ¬ ['/', '*'] <:+: ['/', ' ', '$', '"', '{', ' ', '/', '/', ' ', '*'] := by decide
  refine ⟨rfl, hnests, ?_⟩
  rw [(comment_inert_iff hardNote).1.2 ⟨rfl, hnests⟩ accented noCode]
  exact identifiers_accented

def summaryComment : Comment :=
  .line ['/', ' ', 'n', 'o', 'n', 'e'] (by decide)

def errorsCode : BareCode :=
  ⟨['E', 'r', 'r', 'o', 'r', 's', ' '], List.all_eq_true.1 (by decide)⟩

/-- A summary is read as the word `doc`. -/
theorem documentation_read_as_word : identifiers (between errorsCode summaryComment.text noCode) = ["Errors", "doc"] ∧
    identifiers (between errorsCode [' '] noCode) = ["Errors"] := by
  have hcomment : mentions (errorsCode.chars ++ (summaryComment.text ++ noCode.chars)) =
      [['E', 'r', 'r', 'o', 'r', 's'], ['d', 'o', 'c']] := by decide +kernel
  have hblank : mentions (errorsCode.chars ++ ' ' :: noCode.chars) = [['E', 'r', 'r', 'o', 'r', 's']] := by
    decide +kernel
  rw [identifiers_comment, identifiers_blank, hcomment, hblank]
  exact ⟨rfl, rfl⟩

end TypeDoctrine.Source
