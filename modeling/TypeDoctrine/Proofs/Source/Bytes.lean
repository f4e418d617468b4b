import TypeDoctrine.Proofs.Source.Position
import TypeDoctrine.Proofs.Source.Verbatim

/-!
# Words by byte

The plain scan for words, done over the bytes of a text. A byte is read as the character of its code, so a character
outside ASCII is several bytes of code 128 and above, and a backslash can skip the first of them alone. Words are cut
out of the text between byte positions, and a position within a character is a `Fault`.

Bytes of code 128 and above are no part of a word and end nothing, so the scan finds the words of the text
(`plainWords_octets`); and a byte below 128 is a whole character (`octets_split`), so words are cut out between
characters (`slice_word`). With the expansion by position, `scan_never_faults` is about the whole scanner.
-/

namespace TypeDoctrine.Source.ByPosition

/-! ## The bytes of a text -/

/-- The bytes of a character, each read as the character of its code. -/
def octets (c : Char) : List Char :=
  (String.utf8EncodeChar c).map Char.ofUInt8

/-- The bytes of a text, each read as the character of its code. -/
def bytes (source : String) : List Char :=
  source.toByteArray.data.toList.map Char.ofUInt8

theorem bytes_eq (source : String) : bytes source = source.toList.flatMap octets := by
  have h : source.toByteArray = source.toList.utf8Encode := by
    rw [← String.toByteArray_ofList, String.ofList_toList]
  rw [bytes, h, List.utf8Encode, List.toList_data_toByteArray, List.map_flatMap]
  rfl

theorem toNat_ofUInt8 (u : UInt8) : (Char.ofUInt8 u).toNat = u.toNat :=
  UInt8.toNat_toUInt32 u

theorem octets_of_lt {c : Char} (h : c.toNat < 128) : octets c = [c] := by
  have hle : c.val.toNat ≤ 0x7f := Nat.le_of_lt_succ h
  rw [octets, String.utf8EncodeChar, if_pos hle, List.map_singleton, List.singleton_inj]
  apply Char.ext
  apply UInt32.toNat_inj.1
  refine (toNat_ofUInt8 _).trans ?_
  rw [UInt8.toNat_ofNat']
  omega

theorem le_of_mem_octets {c : Char} (h : ¬ c.toNat < 128) : ∀ b ∈ octets c, 128 ≤ b.toNat := by
  intro b hb
  obtain ⟨u, hu, rfl⟩ := List.mem_map.1 hb
  have hgt : ¬ c.val.toNat ≤ 0x7f := fun hle => h (Nat.lt_succ_of_le hle)
  rw [String.utf8EncodeChar, if_neg hgt] at hu
  rw [toNat_ofUInt8]
  -- two, three or four bytes, each a marker bit and a remainder below it
  split at hu
  · simp only [List.mem_cons, List.not_mem_nil, or_false] at hu
    rcases hu with rfl | rfl <;> simp <;> omega
  · split at hu
    · simp only [List.mem_cons, List.not_mem_nil, or_false] at hu
      rcases hu with rfl | rfl | rfl <;> simp <;> omega
    · simp only [List.mem_cons, List.not_mem_nil, or_false] at hu
      rcases hu with rfl | rfl | rfl | rfl <;> simp <;> omega

/-- After its first byte, a character goes on with bytes outside ASCII. -/
theorem exists_octets (c : Char) : ∃ b tail, octets c = b :: tail ∧ ∀ d ∈ tail, 128 ≤ d.toNat := by
  by_cases h : c.toNat < 128
  · exact ⟨c, [], octets_of_lt h, nofun⟩
  · cases heq : octets c with
    | nil => exact absurd (List.map_eq_nil_iff.1 heq) String.utf8EncodeChar_ne_nil
    | cons b tail =>
      refine ⟨b, tail, rfl, fun d hd => ?_⟩
      exact le_of_mem_octets h d (heq ▸ List.mem_cons_of_mem b hd)

/-- A byte of ASCII is a whole character. -/
theorem octets_split {a : Char} (ha : a.toNat < 128) {cs x y : List Char} (h : cs.flatMap octets = x ++ a :: y) :
    ∃ before after, cs = before ++ a :: after ∧ before.flatMap octets = x ∧ after.flatMap octets = y := by
  induction cs generalizing x with
  | nil => simp at h
  | cons c cs ih =>
    rw [List.flatMap_cons, List.append_eq_append_iff] at h
    rcases h with ⟨t, rfl, ht⟩ | ⟨t, hc, ht⟩
    · obtain ⟨before, after, rfl, rfl, rfl⟩ := ih ht
      exact ⟨c :: before, after, rfl, rfl, rfl⟩
    · cases t with
      | nil =>
        obtain ⟨before, after, rfl, hbefore, rfl⟩ := ih (x := []) ht.symm
        refine ⟨c :: before, after, rfl, ?_, rfl⟩
        rw [List.flatMap_cons, hbefore, hc, List.append_nil, List.append_nil]
      | cons b t =>
        obtain ⟨rfl, rfl⟩ := List.cons.inj ht
        -- the byte is one of `c`, which is in ASCII then
        have hmem : a ∈ octets c := by
          rw [hc]
          exact List.mem_append_right x List.mem_cons_self
        have hlt : c.toNat < 128 := by
          by_contra hge
          exact absurd (le_of_mem_octets hge a hmem) (Nat.not_le.2 ha)
        rw [octets_of_lt hlt] at hc
        have hx : x = [] := by
          cases x with
          | nil => rfl
          | cons d x => exact absurd (congrArg List.length hc) (by simp)
        rw [hx, List.nil_append] at hc
        obtain ⟨rfl, rfl⟩ := List.cons.inj hc
        exact ⟨[], cs, rfl, hx.symm, rfl⟩

theorem octets_prefix {w : List Char} (hw : ∀ c ∈ w, c.toNat < 128) {cs y : List Char}
    (h : cs.flatMap octets = w ++ y) : ∃ after, cs = w ++ after := by
  induction w generalizing cs with
  | nil => exact ⟨cs, rfl⟩
  | cons a w ih =>
    obtain ⟨ha, hw⟩ := List.forall_mem_cons.1 hw
    obtain ⟨before, after, rfl, hbefore, hafter⟩ := octets_split ha (x := []) h
    obtain ⟨rest, rfl⟩ := ih hw hafter
    obtain rfl : before = [] := by
      cases before with
      | nil => rfl
      | cons c before =>
        obtain ⟨b, tail, hb, -⟩ := exists_octets c
        simp [hb] at hbefore
    exact ⟨rest, rfl⟩

/-- A run of ASCII among the bytes stands between characters. -/
theorem octets_word {w : List Char} (hne : w ≠ []) (hw : ∀ c ∈ w, c.toNat < 128) {cs x y : List Char}
    (h : cs.flatMap octets = x ++ (w ++ y)) :
    ∃ before after, cs = before ++ (w ++ after) ∧ before.flatMap octets = x := by
  obtain ⟨a, w, rfl⟩ := List.exists_cons_of_ne_nil hne
  obtain ⟨ha, hw⟩ := List.forall_mem_cons.1 hw
  obtain ⟨before, rest, rfl, rfl, hrest⟩ := octets_split ha h
  obtain ⟨after, rfl⟩ := octets_prefix hw hrest
  exact ⟨before, after, rfl, rfl⟩

/-! ## Words among the bytes -/

theorem ne_of_le {b c : Char} (hb : 128 ≤ b.toNat) (hc : c.toNat < 128) : b ≠ c := by
  rintro rfl
  exact absurd hb (Nat.not_le.2 hc)

theorem lt_of_isPlainPart {c : Char} (h : isPlainPart c = true) : c.toNat < 128 :=
  forall_isPlainPart (p := fun c => c.toNat < 128) (by decide) h

section High

variable {bs : List Char} (hbs : ∀ b ∈ bs, 128 ≤ b.toNat)

include hbs

theorem splitComment_high (rest : List Char) : (splitComment (bs ++ rest)).2 = (splitComment rest).2 := by
  induction bs with
  | nil => rfl
  | cons b bs ih =>
    obtain ⟨hb, hbs⟩ := List.forall_mem_cons.1 hbs
    rw [List.cons_append, splitComment_cons fun h => absurd h (ne_of_le hb (by decide)), ih hbs]

theorem splitLiteral_high {quote : Char} (hquote : quote.toNat < 128) (rest : List Char) :
    (splitLiteral quote false (bs ++ rest)).2 = (splitLiteral quote false rest).2 := by
  induction bs with
  | nil => rfl
  | cons b bs ih =>
    obtain ⟨hb, hbs⟩ := List.forall_mem_cons.1 hbs
    have hslash : b ≠ '\\' := ne_of_le hb (by decide)
    rw [List.cons_append, splitLiteral_snd_cons, if_neg (by simp [hslash]), if_neg (by simp [ne_of_le hb hquote]),
      ih hbs]

theorem plainWords_high (rest : List Char) : plainWords (bs ++ rest) = plainWords rest := by
  induction bs with
  | nil => rfl
  | cons b bs ih =>
    obtain ⟨hb, hbs⟩ := List.forall_mem_cons.1 hbs
    have hplain : isPlain b = true := by
      rw [isPlain_iff]
      exact ⟨ne_of_le hb (by decide), ne_of_le hb (by decide), ne_of_le hb (by decide), ne_of_le hb (by decide),
        ne_of_le hb (by decide)⟩
    have hpart : ¬ isPlainPart b = true := fun h => absurd (lt_of_isPlainPart h) (Nat.not_lt.2 hb)
    rw [List.cons_append, plainWords_skip _ hplain (Bool.eq_false_iff.2 (mt isPlainPart_of_isStart hpart))
      (Bool.eq_false_iff.2 (mt isPlainPart_of_isDigit hpart)), ih hbs]

end High

theorem flatMap_octets_cons {c : Char} (h : c.toNat < 128) (cs : List Char) :
    (c :: cs).flatMap octets = c :: cs.flatMap octets := by
  rw [List.flatMap_cons, octets_of_lt h, List.singleton_append]

theorem flatMap_octets_of_forall {w : List Char} (hw : ∀ c ∈ w, c.toNat < 128) : w.flatMap octets = w := by
  induction w with
  | nil => rfl
  | cons c w ih =>
    obtain ⟨hc, hw⟩ := List.forall_mem_cons.1 hw
    rw [flatMap_octets_cons hc, ih hw]

theorem head?_octets {a : Char} (ha : a.toNat < 128) (cs : List Char) :
    ((cs.flatMap octets).head? == some a) = (cs.head? == some a) := by
  cases cs with
  | nil => rfl
  | cons c cs =>
    by_cases hc : c.toNat < 128
    · rw [flatMap_octets_cons hc]
      rfl
    · obtain ⟨b, tail, hb, -⟩ := exists_octets c
      have hle : 128 ≤ b.toNat := le_of_mem_octets hc b (hb ▸ List.mem_cons_self)
      rw [List.flatMap_cons, hb]
      simp [ne_of_le hle ha, ne_of_le (Nat.le_of_not_lt hc) ha]

/-- A test that does not tell the bytes outside ASCII apart passes over the bytes of the characters that it passes
over. -/
theorem takeWhile_octets {p : Char → Bool} (hp : ∀ b c : Char, 128 ≤ b.toNat → 128 ≤ c.toNat → p b = p c)
    (cs : List Char) :
    (cs.flatMap octets).takeWhile p = (cs.takeWhile p).flatMap octets ∧
      (cs.flatMap octets).dropWhile p = (cs.dropWhile p).flatMap octets := by
  induction cs with
  | nil => exact ⟨rfl, rfl⟩
  | cons c cs ih =>
    have hall : ∀ b ∈ octets c, p b = p c := by
      intro b hb
      by_cases hc : c.toNat < 128
      · rw [octets_of_lt hc, List.mem_singleton] at hb
        rw [hb]
      · exact hp b c (le_of_mem_octets hc b hb) (Nat.le_of_not_lt hc)
    by_cases hpc : p c = true
    · have hpass : ∀ b ∈ octets c, p b = true := fun b hb => (hall b hb).trans hpc
      rw [List.flatMap_cons, List.takeWhile_append_of_pos hpass, List.dropWhile_append_of_pos hpass,
        List.takeWhile_cons_of_pos hpc, List.dropWhile_cons_of_pos hpc, List.flatMap_cons, ih.1, ih.2]
      exact ⟨rfl, rfl⟩
    · obtain ⟨b, tail, hb, -⟩ := exists_octets c
      have hpb : ¬ p b = true := by
        rw [hall b (hb ▸ List.mem_cons_self)]
        exact hpc
      rw [List.takeWhile_cons_of_neg hpc, List.dropWhile_cons_of_neg hpc, List.flatMap_cons, hb, List.cons_append,
        List.takeWhile_cons_of_neg hpb, List.dropWhile_cons_of_neg hpb]
      exact ⟨rfl, rfl⟩

theorem splitComment_octets (cs : List Char) :
    (splitComment (cs.flatMap octets)).2 = (splitComment cs).2.flatMap octets := by
  fun_induction splitComment cs with
  | case1 rest => rw [flatMap_octets_cons (by decide), flatMap_octets_cons (by decide), splitComment]
  | case2 c rest hne r ih =>
    by_cases hc : c.toNat < 128
    · have hopen : c = '*' → (rest.flatMap octets).head? ≠ some '/' := by
        rintro rfl hhead
        rw [← beq_iff_eq, head?_octets (by decide), beq_iff_eq] at hhead
        obtain ⟨rest, rfl⟩ := List.head?_eq_some_iff.1 hhead
        exact hne rest rfl rfl
      rw [flatMap_octets_cons hc, splitComment_cons hopen, ih]
    · rw [List.flatMap_cons, splitComment_high (le_of_mem_octets hc), ih]
  | case3 => rfl

/-- A backslash may skip the first byte alone of a character; the bytes that are left of it close no literal. -/
theorem splitLiteral_octets {quote : Char} (hquote : quote.toNat < 128) (cs : List Char) :
    (splitLiteral quote false (cs.flatMap octets)).2 = (splitLiteral quote false cs).2.flatMap octets := by
  fun_induction splitLiteral quote false cs with
  | case1 => rfl
  | case2 c =>
    rw [List.flatMap_singleton]
    by_cases hc : c.toNat < 128
    · rw [octets_of_lt hc]
      rfl
    · rw [← List.append_nil (octets c), splitLiteral_high (le_of_mem_octets hc) hquote]
      rfl
  | case3 c d rest hc r ih =>
    obtain ⟨b, tail, hb, htail⟩ := exists_octets d
    have hslash : c = '\\' := by simpa using hc
    rw [hslash, flatMap_octets_cons (by decide), splitLiteral_snd_cons, if_pos (by simp), List.flatMap_cons, hb,
      List.cons_append, List.drop_succ_cons, List.drop_zero, splitLiteral_high htail hquote, ih]
  | case4 c d rest hc hq =>
    obtain rfl := beq_iff_eq.1 hq
    rw [flatMap_octets_cons hquote, splitLiteral_snd_cons, if_neg (by simpa using hc), if_pos hq]
  | case5 c d rest hc hq r ih =>
    by_cases hlt : c.toNat < 128
    · rw [flatMap_octets_cons hlt, splitLiteral_snd_cons, if_neg (by simpa using hc), if_neg hq, ih]
    · rw [List.flatMap_cons, splitLiteral_high (le_of_mem_octets hlt) hquote, ih]

theorem takeWhile_isPlainPart_octets (cs : List Char) :
    (cs.flatMap octets).takeWhile isPlainPart = cs.takeWhile isPlainPart ∧
      (cs.flatMap octets).dropWhile isPlainPart = (cs.dropWhile isPlainPart).flatMap octets := by
  have hpart : ∀ b : Char, 128 ≤ b.toNat → isPlainPart b = false := fun b hb =>
    Bool.eq_false_iff.2 fun h => absurd (lt_of_isPlainPart h) (Nat.not_lt.2 hb)
  obtain ⟨htake, hdrop⟩ := takeWhile_octets (fun b c hb hc => (hpart b hb).trans (hpart c hc).symm) cs
  refine ⟨?_, hdrop⟩
  rw [htake, flatMap_octets_of_forall fun c hc => lt_of_isPlainPart (List.mem_takeWhile_imp hc)]

/-- What starts at a byte of ASCII is what starts at the character. -/
theorem plainWords_octets_cons {c : Char} (hc : c.toNat < 128) (rest : List Char) :
    plainWords ((c :: rest).flatMap octets) =
      if c == '/' && rest.head? == some '/' then plainWords ((rest.flatMap octets).dropWhile (· != '\n'))
      else if c == '/' && rest.head? == some '*' then plainWords (splitComment ((rest.flatMap octets).drop 1)).2
      else if c == '"' || c == '\'' then plainWords (splitLiteral c false (rest.flatMap octets)).2
      else if c.isAlpha || c == '_' then
        (c :: (rest.flatMap octets).takeWhile isPlainPart) :: plainWords ((rest.flatMap octets).dropWhile isPlainPart)
      else if c.isDigit then plainWords ((rest.flatMap octets).dropWhile isPlainPart)
      else plainWords (rest.flatMap octets) := by
  rw [flatMap_octets_cons hc, plainWords.eq_2, head?_octets (by decide), head?_octets (by decide)]

/-- The words among the bytes of a text are its words. -/
theorem plainWords_octets (cs : List Char) : plainWords (cs.flatMap octets) = plainWords cs := by
  fun_induction plainWords cs with
  | case1 => rw [List.flatMap_nil, plainWords]
  | case2 c rest hc ih =>
    have hslash : c = '/' := beq_iff_eq.1 (Bool.and_eq_true_iff.1 hc).1
    have hline : ∀ b c : Char, 128 ≤ b.toNat → 128 ≤ c.toNat → (b != '\n') = (c != '\n') := by
      intro b c hb hc
      rw [bne_iff_ne.2 (ne_of_le hb (by decide)), bne_iff_ne.2 (ne_of_le hc (by decide))]
    rw [plainWords_octets_cons (hslash ▸ by decide), if_pos hc, (takeWhile_octets hline rest).2, ih]
  | case3 c rest hline hc ih =>
    obtain ⟨hslash, hstar⟩ := Bool.and_eq_true_iff.1 hc
    obtain ⟨rest, rfl⟩ := List.head?_eq_some_iff.1 (beq_iff_eq.1 hstar)
    rw [plainWords_octets_cons (beq_iff_eq.1 hslash ▸ by decide), if_neg hline, if_pos hc,
      flatMap_octets_cons (by decide), List.drop_succ_cons, List.drop_zero, splitComment_octets]
    exact ih
  | case4 c rest hline hblock hc ih =>
    have hlt : c.toNat < 128 := by
      rcases Bool.or_eq_true_iff.1 hc with hq | hq <;> rw [beq_iff_eq.1 hq] <;> decide
    rw [plainWords_octets_cons hlt, if_neg hline, if_neg hblock, if_pos hc, splitLiteral_octets hlt, ih]
  | case5 c rest hline hblock hquote hc ih =>
    obtain ⟨htake, hdrop⟩ := takeWhile_isPlainPart_octets rest
    rw [plainWords_octets_cons (lt_of_isPlainPart (isPlainPart_of_isStart hc)), if_neg hline, if_neg hblock,
      if_neg hquote, if_pos hc, htake, hdrop, ih]
  | case6 c rest hline hblock hquote hstart hc ih =>
    rw [plainWords_octets_cons (lt_of_isPlainPart (isPlainPart_of_isDigit hc)), if_neg hline, if_neg hblock,
      if_neg hquote, if_neg hstart, if_pos hc, (takeWhile_isPlainPart_octets rest).2, ih]
  | case7 c rest hline hblock hquote hstart hdigit ih =>
    by_cases hlt : c.toNat < 128
    · rw [plainWords_octets_cons hlt, if_neg hline, if_neg hblock, if_neg hquote, if_neg hstart, if_neg hdigit, ih]
    · rw [List.flatMap_cons, plainWords_high (le_of_mem_octets hlt), ih]

/-! ## The scan -/

/-- The part of a text between two byte positions. -/
def slice (source : String) (start stop : Nat) : Except Fault String :=
  if h : start ≤ stop ∧ String.Pos.Raw.IsValid source ⟨start⟩ ∧ String.Pos.Raw.IsValid source ⟨stop⟩ then
    .ok (source.extract (source.pos ⟨start⟩ h.2.1) (source.pos ⟨stop⟩ h.2.2))
  else .error (.cut start stop)

theorem slice_append (before middle after : String) :
    slice (before ++ middle ++ after) before.utf8ByteSize (before ++ middle).utf8ByteSize = .ok middle := by
  have hle : before.utf8ByteSize ≤ (before ++ middle).utf8ByteSize := by simp
  have hstart : String.Pos.Raw.IsValid (before ++ middle ++ after) ⟨before.utf8ByteSize⟩ :=
    String.Pos.Raw.isValid_iff_exists_append.2 ⟨before, middle ++ after, String.append_assoc, rfl⟩
  have hstop : String.Pos.Raw.IsValid (before ++ middle ++ after) ⟨(before ++ middle).utf8ByteSize⟩ :=
    String.Pos.Raw.isValid_iff_exists_append.2 ⟨before ++ middle, after, rfl, rfl⟩
  rw [slice, dif_pos ⟨hle, hstart, hstop⟩]
  congr 1
  apply String.toByteArray_inj.1
  have hmiddle : (before ++ middle).toByteArray.extract before.utf8ByteSize (before ++ middle).utf8ByteSize =
      middle.toByteArray := by
    rw [String.toByteArray_append]
    exact ByteArray.extract_append_eq_right (by simp) (by simp)
  rw [String.toByteArray_extract, String.offset_pos, String.offset_pos, String.toByteArray_append,
    ByteArray.extract_append, hmiddle]
  simp

example : slice "é" 0 1 = .error (.cut 0 1) := by decide

section Scan

variable (bs : List Char)

/-- The position of the first byte from here on that a test refuses. -/
def refusedIdx (p : Char → Bool) (i : Nat) : Nat :=
  if h : i < bs.length then if p bs[i] then refusedIdx p (i + 1) else i
  else i
termination_by bs.length - i

/-- The position of the closing mark of a comment, or of the last byte. -/
def markIdx (i : Nat) : Nat :=
  if h : i + 1 < bs.length then if bs[i] == '*' && bs[i + 1] == '/' then i else markIdx (i + 1)
  else i
termination_by bs.length - i

/-- The position of the closing quote of a literal. -/
def quoteIdx (quote : Char) (i : Nat) : Nat :=
  if h : i < bs.length then
    if bs[i] == quote then i
    else if bs[i] == '\\' then quoteIdx quote (i + 2)
    else quoteIdx quote (i + 1)
  else i
termination_by bs.length - i

/-- The position after what starts with a byte here: a comment, a literal, a word, a number or the byte. -/
def stepEnd (i : Nat) (c : Char) : Nat :=
  if c == '/' && bs[i + 1]? == some '/' then refusedIdx bs (· != '\n') i
  else if c == '/' && bs[i + 1]? == some '*' then markIdx bs (i + 2) + 2
  else if c == '"' || c == '\'' then quoteIdx bs c (i + 1) + 1
  else if isPlainPart c then refusedIdx bs isPlainPart i
  else i + 1

theorem refusedIdx_eq (p : Char → Bool) (i : Nat) :
    refusedIdx bs p i = i + ((bs.drop i).takeWhile p).length ∧
      bs.drop (refusedIdx bs p i) = (bs.drop i).dropWhile p := by
  fun_induction refusedIdx bs p i with
  | case1 i h hp ih =>
    rw [List.drop_eq_getElem_cons h, List.takeWhile_cons_of_pos hp, List.dropWhile_cons_of_pos hp, List.length_cons]
    exact ⟨by omega, ih.2⟩
  | case2 i h hp =>
    rw [List.drop_eq_getElem_cons h, List.takeWhile_cons_of_neg hp, List.dropWhile_cons_of_neg hp]
    exact ⟨rfl, rfl⟩
  | case3 i h =>
    rw [List.drop_eq_nil_of_le (Nat.le_of_not_lt h)]
    exact ⟨rfl, rfl⟩

theorem refusedIdx_of_pos {p : Char → Bool} {i : Nat} (h : i < bs.length) (hp : p bs[i] = true) :
    i < refusedIdx bs p i ∧ bs.drop (refusedIdx bs p i) = (bs.drop (i + 1)).dropWhile p := by
  obtain ⟨heq, hdrop⟩ := refusedIdx_eq bs p i
  rw [List.drop_eq_getElem_cons h, List.takeWhile_cons_of_pos hp, List.length_cons] at heq
  rw [List.drop_eq_getElem_cons h, List.dropWhile_cons_of_pos hp] at hdrop
  exact ⟨by omega, hdrop⟩

theorem markIdx_eq (i : Nat) :
    i ≤ markIdx bs i ∧ bs.drop (markIdx bs i + 2) = (splitComment (bs.drop i)).2 := by
  fun_induction markIdx bs i with
  | case1 i h hc =>
    simp only [Bool.and_eq_true, beq_iff_eq] at hc
    refine ⟨Nat.le_refl i, ?_⟩
    rw [List.drop_eq_getElem_cons (Nat.lt_of_succ_lt h), List.drop_eq_getElem_cons h, hc.1, hc.2, splitComment]
  | case2 i h hc ih =>
    refine ⟨Nat.le_of_succ_le ih.1, ?_⟩
    rw [ih.2, List.drop_eq_getElem_cons (Nat.lt_of_succ_lt h), splitComment_cons]
    intro hstar hslash
    rw [List.head?_drop, List.getElem?_eq_getElem h, Option.some.injEq] at hslash
    exact hc (by rw [hstar, hslash]; rfl)
  | case3 i h =>
    refine ⟨Nat.le_refl i, ?_⟩
    rw [List.drop_eq_nil_of_le (by omega)]
    -- at most one byte is left, which is no closing mark
    by_cases hlt : i < bs.length
    · rw [List.drop_eq_getElem_cons hlt, List.drop_eq_nil_of_le (by omega), splitComment_cons (by simp)]
      rfl
    · rw [List.drop_eq_nil_of_le (Nat.le_of_not_lt hlt)]
      rfl

theorem quoteIdx_eq {quote : Char} (hquote : quote ≠ '\\') (i : Nat) :
    i ≤ quoteIdx bs quote i ∧ bs.drop (quoteIdx bs quote i + 1) = (splitLiteral quote false (bs.drop i)).2 := by
  fun_induction quoteIdx bs quote i with
  | case1 i h hq =>
    refine ⟨Nat.le_refl i, ?_⟩
    rw [List.drop_eq_getElem_cons h, splitLiteral_snd_cons, if_neg (by simp [beq_iff_eq.1 hq, hquote]), if_pos hq]
  | case2 i h hq hc ih =>
    refine ⟨by omega, ?_⟩
    rw [ih.2, List.drop_eq_getElem_cons h, splitLiteral_snd_cons, if_pos (by simp [hc]), List.drop_drop]
  | case3 i h hq hc ih =>
    refine ⟨by omega, ?_⟩
    rw [ih.2, List.drop_eq_getElem_cons h, splitLiteral_snd_cons, if_neg (by simp [hc]), if_neg hq]
  | case4 i h =>
    refine ⟨Nat.le_refl i, ?_⟩
    rw [List.drop_eq_nil_of_le (by omega), List.drop_eq_nil_of_le (Nat.le_of_not_lt h)]
    rfl

/-- A step advances, and what it passes over is a word or nothing. -/
theorem stepEnd_eq {i : Nat} (h : i < bs.length) :
    i < stepEnd bs i bs[i] ∧ plainWords (bs.drop i) =
      if bs[i].isAlpha || bs[i] == '_' then
        (bs.drop i).takeWhile isPlainPart :: plainWords (bs.drop (stepEnd bs i bs[i]))
      else plainWords (bs.drop (stepEnd bs i bs[i])) := by
  rw [List.drop_eq_getElem_cons h, plainWords.eq_2, List.head?_drop, stepEnd]
  by_cases hline : (bs[i] == '/' && bs[i + 1]? == some '/') = true
  · have hslash : bs[i] = '/' := beq_iff_eq.1 (Bool.and_eq_true_iff.1 hline).1
    obtain ⟨hlt, hdrop⟩ := refusedIdx_of_pos bs (p := (· != '\n')) h (by rw [hslash]; rfl)
    rw [if_pos hline, if_pos hline, if_neg (by rw [hslash]; decide), hdrop]
    exact ⟨hlt, rfl⟩
  · rw [if_neg hline, if_neg hline]
    by_cases hblock : (bs[i] == '/' && bs[i + 1]? == some '*') = true
    · have hslash : bs[i] = '/' := beq_iff_eq.1 (Bool.and_eq_true_iff.1 hblock).1
      obtain ⟨hle, hdrop⟩ := markIdx_eq bs (i + 2)
      rw [if_pos hblock, if_pos hblock, if_neg (by rw [hslash]; decide), hdrop, List.drop_drop]
      exact ⟨by omega, rfl⟩
    · rw [if_neg hblock, if_neg hblock]
      by_cases hquote : (bs[i] == '"' || bs[i] == '\'') = true
      · have hne : bs[i] ≠ '\\' ∧ ¬ (bs[i].isAlpha || bs[i] == '_') = true := by
          rcases Bool.or_eq_true_iff.1 hquote with hq | hq <;> rw [beq_iff_eq.1 hq] <;> decide
        obtain ⟨hle, hdrop⟩ := quoteIdx_eq bs hne.1 (i + 1)
        rw [if_pos hquote, if_pos hquote, if_neg hne.2, hdrop]
        exact ⟨by omega, rfl⟩
      · rw [if_neg hquote, if_neg hquote]
        by_cases hpart : isPlainPart bs[i] = true
        · obtain ⟨hlt, hdrop⟩ := refusedIdx_of_pos bs h hpart
          rw [if_pos hpart, hdrop, List.takeWhile_cons_of_pos hpart]
          refine ⟨hlt, ?_⟩
          split
          · rfl
          · next hstart =>
            have hdigit : bs[i].isDigit = true := by
              simp_all [isPlainPart, Char.isAlphanum]
            rw [if_pos hdigit]
        · rw [if_neg hpart, if_neg (mt isPlainPart_of_isStart hpart), if_neg (mt isPlainPart_of_isDigit hpart),
            if_neg (mt isPlainPart_of_isStart hpart)]
          exact ⟨Nat.lt_succ_self i, rfl⟩

theorem stepEnd_word {i : Nat} (h : i < bs.length) (hstart : (bs[i].isAlpha || bs[i] == '_') = true) :
    stepEnd bs i bs[i] = refusedIdx bs isPlainPart i := by
  have hc : bs[i] ≠ '/' ∧ bs[i] ≠ '"' ∧ bs[i] ≠ '\'' :=
    forall_isPlainPart (p := fun c => c ≠ '/' ∧ c ≠ '"' ∧ c ≠ '\'') (by decide) (isPlainPart_of_isStart hstart)
  rw [stepEnd, if_neg (by simp [hc]), if_neg (by simp [hc]), if_neg (by simp [hc]),
    if_pos (isPlainPart_of_isStart hstart)]

end Scan

/-- The words of a text from a byte position on. -/
def wordsFrom (source : String) (i : Nat) : Except Fault (List String) :=
  if h : i < (bytes source).length then
    let stop := stepEnd (bytes source) i (bytes source)[i]
    if i < stop then
      if (bytes source)[i].isAlpha || (bytes source)[i] == '_' then do
        let word ← slice source i stop
        return word :: (← wordsFrom source stop)
      else wordsFrom source stop
    else .error (.standstill i stop)
  else .ok []
termination_by (bytes source).length - i

theorem length_bytes (source : String) : (bytes source).length = source.utf8ByteSize := by
  rw [bytes, List.length_map, Array.length_toList]
  rfl

theorem utf8ByteSize_ofList (cs : List Char) : (String.ofList cs).utf8ByteSize = (cs.flatMap octets).length := by
  rw [← length_bytes, bytes_eq, String.toList_ofList]

/-- A run of word characters among the bytes is cut out between characters. -/
theorem slice_word {source : String} {i : Nat} (h : i < (bytes source).length)
    (hpart : isPlainPart (bytes source)[i] = true) :
    slice source i (refusedIdx (bytes source) isPlainPart i) =
      .ok (String.ofList (((bytes source).drop i).takeWhile isPlainPart)) := by
  have hword : ∀ c ∈ ((bytes source).drop i).takeWhile isPlainPart, c.toNat < 128 := fun c hc =>
    lt_of_isPlainPart (List.mem_takeWhile_imp hc)
  have hstop := (refusedIdx_eq (bytes source) isPlainPart i).1
  have hsplit : source.toList.flatMap octets = (bytes source).take i ++
      (((bytes source).drop i).takeWhile isPlainPart ++ ((bytes source).drop i).dropWhile isPlainPart) := by
    rw [List.takeWhile_append_dropWhile, List.take_append_drop, bytes_eq]
  have hne : ((bytes source).drop i).takeWhile isPlainPart ≠ [] := by
    rw [List.drop_eq_getElem_cons h, List.takeWhile_cons_of_pos hpart]
    exact List.cons_ne_nil _ _
  generalize ((bytes source).drop i).takeWhile isPlainPart = word at hword hstop hsplit hne ⊢
  obtain ⟨before, after, hsource, hbefore⟩ := octets_word hne hword hsplit
  have hstart : (String.ofList before).utf8ByteSize = i := by
    rw [utf8ByteSize_ofList, hbefore, List.length_take_of_le (Nat.le_of_lt h)]
  have htext : source = String.ofList before ++ String.ofList word ++ String.ofList after := by
    rw [← String.ofList_append, ← String.ofList_append, List.append_assoc, ← hsource, String.ofList_toList]
  have hsize : (String.ofList before ++ String.ofList word).utf8ByteSize = i + word.length := by
    rw [String.utf8ByteSize_append, hstart, utf8ByteSize_ofList, flatMap_octets_of_forall hword]
  calc slice source i (refusedIdx (bytes source) isPlainPart i)
    _ = slice source (String.ofList before).utf8ByteSize (String.ofList before ++ String.ofList word).utf8ByteSize := by
      rw [hstart, hsize, hstop]
    _ = .ok (String.ofList word) := by
      rw [htext]
      exact slice_append _ _ _

theorem wordsFrom_eq (source : String) (i : Nat) :
    wordsFrom source i = .ok ((plainWords ((bytes source).drop i)).map String.ofList) := by
  fun_induction wordsFrom source i with
  | case1 i h stop hlt hstart ih =>
    obtain ⟨-, hwords⟩ := stepEnd_eq (bytes source) h
    rw [if_pos hstart] at hwords
    have hstop : stop = refusedIdx (bytes source) isPlainPart i := stepEnd_word (bytes source) h hstart
    have hslice : slice source i stop = .ok (String.ofList (((bytes source).drop i).takeWhile isPlainPart)) := by
      rw [hstop]
      exact slice_word h (isPlainPart_of_isStart hstart)
    rw [hwords, List.map_cons, hslice, ih]
    rfl
  | case2 i h stop hlt hstart ih =>
    obtain ⟨-, hwords⟩ := stepEnd_eq (bytes source) h
    rw [if_neg hstart] at hwords
    rw [ih, hwords]
  | case3 i h stop hlt =>
    obtain ⟨hstep, -⟩ := stepEnd_eq (bytes source) h
    exact absurd hstep hlt
  | case4 i h =>
    rw [List.drop_eq_nil_of_le (Nat.le_of_not_lt h), plainWords]
    rfl

/-- The words that a scan of the bytes finds are the words of the text. -/
theorem wordsFrom_zero (source : String) :
    wordsFrom source 0 = .ok ((plainWords source.toList).map String.ofList) := by
  rw [wordsFrom_eq, List.drop_zero, bytes_eq, plainWords_octets]

/-! ## The distinct names -/

/-- Adds a name that is not there yet. -/
def pushUnique (names : List String) (name : String) : List String :=
  if name ∈ names then names else names ++ [name]

/-- The names that an expanded text mentions. -/
def namesIn (text : List Char) : Except Fault (List String) :=
  match tokens? text with
  | some ts => .ok ((Token.names ts).map String.ofList)
  | none => wordsFrom (String.ofList text) 0

/-- The distinct names that a body mentions, found by position. -/
def scan (source : String) : Except Fault (List String) := do
  let text ← expandText source.toList
  let names ← namesIn text
  return names.foldl pushUnique []

theorem namesIn_eq (text : List Char) : namesIn text = .ok ((mentions text).map String.ofList) := by
  unfold namesIn mentions
  cases tokens? text with
  | none => rw [wordsFrom_zero, String.toList_ofList]
  | some ts => rfl

/-- Adding names one by one leaves of each the first. -/
theorem foldl_pushUnique_eq (names more : List String) :
    more.foldl pushUnique names = names ++ (more.filter (· ∉ names)).eraseDups := by
  induction more generalizing names with
  | nil => simp
  | cons name more ih =>
    rw [List.foldl_cons, ih, pushUnique]
    by_cases hname : name ∈ names
    · rw [if_pos hname, List.filter_cons_of_neg (by simp [hname])]
    · have hfilter : more.filter (· ∉ names ++ [name]) = (more.filter (· ∉ names)).filter fun b => !b == name := by
        rw [List.filter_filter]
        apply List.filter_congr
        intro b _
        by_cases hb : b = name <;> simp [hb]
      rw [if_neg hname, List.filter_cons_of_pos (by simp [hname]), List.eraseDups_cons, hfilter, List.append_assoc]
      rfl

theorem scan_eq (source : String) : scan source = .ok (identifiers source) := by
  rw [scan, expandText_eq, bind_ok, namesIn_eq, bind_ok, foldl_pushUnique_eq, List.nil_append,
    List.filter_eq_self.2 (by simp), identifiers, eraseDups_map_ofList]
  rfl

theorem nodup_identifiers (source : String) : (identifiers source).Nodup := by
  rw [identifiers, eraseDups_map_ofList]
  exact (firstSeen_eraseDups _).nodup

/-- The end of a hole is searched for from any position and lies within the text. -/
theorem holeEnd_within (cs : List Char) (i : Nat) :
    ∃ exprEnd close, holeEnd cs 0 none i = .ok (exprEnd, close) ∧
      min i cs.length ≤ exprEnd ∧ exprEnd ≤ close ∧ close ≤ cs.length := by
  by_cases hi : i ≤ cs.length
  · obtain ⟨⟨exprEnd, close⟩, heq, hfound⟩ := holeEnd_eq 0 none i hi (flagsAt_followsAt cs i)
    obtain ⟨hle, hclose, -⟩ := hfound.expr
    exact ⟨exprEnd, close, heq, by omega, hclose, hfound.close_le⟩
  · refine ⟨cs.length, cs.length, ?_, Nat.min_le_right _ _, Nat.le_refl _, Nat.le_refl _⟩
    rw [holeEnd, dif_neg (by omega)]
    rfl

end TypeDoctrine.Source.ByPosition

namespace TypeDoctrine.Source

open ByPosition

/-- Scanning by position never faults. Whatever the text, it finds the names of `identifiers`, no name twice; words
are found from every byte on, also from one within a character; and the ends of literals, holes and interpolated
strings are searched for from any position and lie within the text. -/
theorem scan_never_faults (source : String) :
    (scan source = .ok (identifiers source) ∧ (identifiers source).Nodup) ∧
    (∀ i, wordsFrom source i = .ok ((plainWords ((bytes source).drop i)).map String.ofList)) ∧
    ∀ cs : List Char,
      expandText cs = .ok (expand cs) ∧
      (∀ quote verbatim i, literalEnd cs quote verbatim i ≤ cs.length) ∧
      (∀ i, ∃ exprEnd close, holeEnd cs 0 none i = .ok (exprEnd, close) ∧
        min i cs.length ≤ exprEnd ∧ exprEnd ≤ close ∧ close ≤ cs.length) ∧
      ∀ verbatim i, ∃ text stop, expandHoles cs (fun hole _ => expandText hole) verbatim i = .ok (text, stop) ∧
        min i cs.length ≤ stop ∧ stop ≤ cs.length := by
  refine ⟨⟨scan_eq source, nodup_identifiers source⟩, wordsFrom_eq source, fun cs => ?_⟩
  refine ⟨expandText_eq cs, fun quote verbatim i => ?_, holeEnd_within cs, fun verbatim i => ?_⟩
  · exact (stops_literalEnd cs quote verbatim i).stop_le
  · obtain ⟨stop, heq, hstop⟩ := expandHoles_eq (fun hole _ => expandText_eq hole) verbatim i
    exact ⟨_, stop, heq, hstop.le_stop, hstop.stop_le⟩

end TypeDoctrine.Source
