import TypeDoctrine.Json.Reader
import TypeDoctrine.Json.Writer

/-!
# Reading what was written

`parse?_pretty`: a value that the writer writes in full (`Exact`) is read back from its text over several
lines. The reader is followed token by token: `readFrom` is what it makes of the rest of a text while some
arrays and objects are open, and there is one equation for each token. A value in front of the rest leaves the
reader as if that value had been read (`Exact.passesOver`), whatever stands around it.

Below that, the text of a string gives its characters (`splitToken?_quote`), and the text of an integer gives
the integer if nothing follows that could belong to a number (`splitToken?_signedDecimal`).
-/

namespace TypeDoctrine

open Text (digitChar digits decimal signedDecimal wordLimit ofDigits)

namespace Json

/-- A value that has a text of its own: its numbers are integers of at most 64 bits, and no string or number in
it is unreadable. -/
inductive Exact : Json → Prop where
  | null : Exact .null
  | bool (b : Bool) : Exact (.bool b)
  | integer {n : Int} : n.natAbs < wordLimit → Exact (.integer n)
  | string (s : String) : Exact (.string s)
  | array {items : List Json} : (∀ j ∈ items, Exact j) → Exact (.array items)
  | object {members : List (String × Json)} : (∀ m ∈ members, Exact m.2) → Exact (.object members)

/-! ## Strings -/

theorem splitString?_escape (c d : Char) (hu : d ≠ 'u') (h : unescape? d = some c) (rest : List Char) :
    splitString? ('\\' :: d :: rest) = (splitString? rest).map fun r => (c.toNat :: r.1, r.2) := by
  rw [splitString?, h]
  · cases splitString? rest <;> rfl
  · intro _ _ _ _ _ hd
    exact absurd hd hu

theorem hex4?_control {n : Nat} (h : n < 0x20) :
    hex4? '0' '0' (digitChar (n / 16)) (digitChar (n % 16)) = some n := by
  unfold hex4?
  rw [Text.digitValue?_digitChar (n / 16) (by omega), Text.digitValue?_digitChar (n % 16) (by omega)]
  simp only [show Text.digitValue? '0' = some 0 from rfl, Option.some.injEq]
  omega

theorem splitString?_escapeChar (c : Char) (rest : List Char) :
    splitString? (escapeChar c ++ rest) = (splitString? rest).map fun r => (c.toNat :: r.1, r.2) := by
  unfold escapeChar
  split
  · next h => exact splitString?_escape c '"' (by decide) (by rw [eq_of_beq h]; rfl) rest
  split
  · next h => exact splitString?_escape c '\\' (by decide) (by rw [eq_of_beq h]; rfl) rest
  split
  · next h => exact splitString?_escape c 'b' (by decide) (by rw [eq_of_beq h]; rfl) rest
  split
  · next h => exact splitString?_escape c 'f' (by decide) (by rw [eq_of_beq h]; rfl) rest
  split
  · next h => exact splitString?_escape c 'n' (by decide) (by rw [eq_of_beq h]; rfl) rest
  split
  · next h => exact splitString?_escape c 'r' (by decide) (by rw [eq_of_beq h]; rfl) rest
  split
  · next h => exact splitString?_escape c 't' (by decide) (by rw [eq_of_beq h]; rfl) rest
  split
  · next h =>
    simp only [List.cons_append, List.nil_append, splitString?, hex4?_control h]
    cases splitString? rest <;> rfl
  · next hquote hslash _ _ _ _ _ hcontrol =>
    rw [beq_iff_eq] at hquote hslash
    rw [List.singleton_append, splitString?]
    · simp [hcontrol, hslash]
    · exact hquote
    · intro _ _ _ _ _ hc
      exact absurd hc hslash
    · intro _ _ hc
      exact absurd hc hslash

theorem splitString?_flatMap (cs rest : List Char) :
    splitString? (cs.flatMap escapeChar ++ '"' :: rest) = some (cs.map Char.toNat, rest) := by
  induction cs with
  | nil => rfl
  | cons c cs ih =>
    rw [List.flatMap_cons, List.append_assoc, splitString?_escapeChar, ih]
    rfl

theorem not_isHalf (c : Char) : isHighHalf c.toNat = false ∧ isLowHalf c.toNat = false := by
  have h := c.valid
  simp only [UInt32.isValidChar, Nat.isValidChar] at h
  unfold isHighHalf isLowHalf Char.toNat
  simp only [Bool.and_eq_false_iff, decide_eq_false_iff_not]
  omega

/-- No character is half of a pair, so every text is read from its code points. -/
theorem ofUnits?_map_toNat (cs : List Char) : ofUnits? (cs.map Char.toNat) = some cs := by
  induction cs with
  | nil => rfl
  | cons c cs ih =>
    obtain ⟨hhigh, hlow⟩ := not_isHalf c
    cases cs with
    | nil => simp [ofUnits?, hhigh, hlow]
    | cons d cs =>
      simp only [List.map_cons] at ih
      simp [ofUnits?, hhigh, hlow, ih]

theorem splitToken?_quote (s : String) (rest : List Char) :
    splitToken? (quote s ++ rest) = some (.atom (.string s), rest) := by
  have hquote : quote s ++ rest = '"' :: (s.toList.flatMap escapeChar ++ '"' :: rest) := by
    simp [quote]
  rw [hquote, splitToken?, splitString?_flatMap, Option.map_some]
  simp only [ofStringUnits, ofUnits?_map_toNat, String.ofList_toList]

/-! ## Numbers -/

/-- What stands behind a value in a text over several lines: nothing, a comma or a new line. -/
def Stops (rest : List Char) : Prop :=
  ∀ c ∈ rest.head?, c = ',' ∨ c = '\n'

theorem takeWhile_isDigit {ds rest : List Char} (hds : ∀ c ∈ ds, c.isDigit = true) (h : Stops rest) :
    (ds ++ rest).takeWhile Char.isDigit = ds ∧ (ds ++ rest).dropWhile Char.isDigit = rest := by
  have hrest : rest.takeWhile Char.isDigit = [] ∧ rest.dropWhile Char.isDigit = rest := by
    cases rest with
    | nil => exact ⟨rfl, rfl⟩
    | cons c rest =>
      rcases h c rfl with rfl | rfl
      · exact ⟨rfl, rfl⟩
      · exact ⟨rfl, rfl⟩
  rw [List.takeWhile_append_of_pos hds, List.dropWhile_append_of_pos hds, hrest.1, hrest.2, List.append_nil]
  exact ⟨rfl, rfl⟩

theorem splitDigits?_digits (n : Nat) {rest : List Char} (h : Stops rest) :
    splitDigits? (digits n ++ rest) = some (digits n, rest) := by
  obtain ⟨htake, hdrop⟩ := takeWhile_isDigit (Text.forall_mem_digits n) h
  obtain ⟨d, ds, hds, -, -⟩ := Text.exists_digits_eq n
  unfold splitDigits?
  simp only [htake, hdrop]
  rw [if_neg (by simp [hds])]

theorem splitWhole?_digits (n : Nat) {rest : List Char} (h : Stops rest) :
    splitWhole? (digits n ++ rest) = some (digits n, rest) := by
  have hdigits := splitDigits?_digits n h
  obtain ⟨d, ds, hds, -, hzero⟩ := Text.exists_digits_eq n
  rw [hds] at hdigits ⊢
  by_cases hd : d = '0'
  · obtain ⟨-, rfl⟩ := hzero hd
    rw [hd]
    rfl
  · rw [← hdigits, List.cons_append, splitWhole?]
    intro _ heq
    exact hd (List.cons.inj heq).1

theorem splitUnsigned?_digits (negative : Bool) (n : Nat) {rest : List Char} (h : Stops rest) :
    splitUnsigned? negative (digits n ++ rest) = some (ofNumberParts negative (digits n) [] none, rest) := by
  have hfraction : splitFraction? rest = some ([], rest) := by
    unfold splitFraction?
    split
    · rcases h '.' rfl with h | h <;> exact absurd h (by decide)
    · rfl
  have hexponent : splitExponent? rest = some (none, rest) := by
    cases rest with
    | nil => rfl
    | cons c rest =>
      rcases h c rfl with rfl | rfl
      · rfl
      · rfl
  unfold splitUnsigned?
  rw [splitWhole?_digits n h]
  simp only [hfraction, hexponent, Option.map_some]

theorem ofNumberParts_digits (negative : Bool) {n : Nat} (hn : n < wordLimit)
    (hzero : (negative && n == 0) = false) :
    ofNumberParts negative (digits n) [] none = .integer (if negative then -n else n) := by
  unfold ofNumberParts
  simp [Text.ofDigits_digits, hn, hzero]

theorem splitNumber?_signedDecimal {n : Int} (hn : n.natAbs < wordLimit) {rest : List Char} (h : Stops rest) :
    splitNumber? ((signedDecimal n).toList ++ rest) = some (.integer n, rest) := by
  cases n with
  | ofNat m =>
    have htext : (signedDecimal (.ofNat m)).toList = digits m := by
      simp [signedDecimal, decimal]
    rw [htext]
    have hunsigned : splitNumber? (digits m ++ rest) = splitUnsigned? false (digits m ++ rest) := by
      obtain ⟨d, ds, hds, hd, -⟩ := Text.exists_digits_eq m
      rw [hds, List.cons_append, splitNumber?]
      intro _ heq
      rw [(List.cons.inj heq).1] at hd
      exact absurd hd (by decide)
    have hm : m < wordLimit := hn
    rw [hunsigned, splitUnsigned?_digits false m h, ofNumberParts_digits false hm rfl]
    rfl
  | negSucc m =>
    have htext : (signedDecimal (.negSucc m)).toList = '-' :: digits (m + 1) := by
      simp [signedDecimal, decimal]
    have hm : m + 1 < wordLimit := hn
    rw [htext, List.cons_append, splitNumber?, splitUnsigned?_digits true (m + 1) h,
      ofNumberParts_digits true hm rfl]
    rfl

/-- A number starts with a digit or a sign. -/
theorem head_signedDecimal (n : Int) :
    ∃ c cs, (signedDecimal n).toList = c :: cs ∧ ∀ d, d.isDigit = false → d ≠ '-' → c ≠ d := by
  cases n with
  | ofNat m =>
    obtain ⟨c, cs, hcs, hc, -⟩ := Text.exists_digits_eq m
    refine ⟨c, cs, by simp [signedDecimal, decimal, hcs], ?_⟩
    rintro d hd - rfl
    rw [hd] at hc
    exact absurd hc (by decide)
  | negSucc m =>
    refine ⟨'-', digits (m + 1), by simp [signedDecimal, decimal], ?_⟩
    intro d _ hd
    exact hd.symm

theorem splitToken?_signedDecimal {n : Int} (hn : n.natAbs < wordLimit) {rest : List Char} (h : Stops rest) :
    splitToken? ((signedDecimal n).toList ++ rest) = some (.atom (.integer n), rest) := by
  have hnumber := splitNumber?_signedDecimal hn h
  obtain ⟨c, cs, hcs, hne⟩ := head_signedDecimal n
  rw [hcs, List.cons_append] at hnumber ⊢
  unfold splitToken?
  split
  case h_11 => rw [hnumber, Option.map_some]
  all_goals
    next heq => exact absurd (List.cons.inj heq).1 (hne _ (by decide) (by decide))

/-! ## Values -/

/-- What the reader makes of the rest of a text. -/
def readFrom (stack : List Frame) (expect : Expect) (rest : List Char) : Option Json :=
  (tokens? rest).bind (build? stack expect)

section Steps

variable {stack : List Frame} {rest : List Char}

theorem tokens?_token {cs : List Char} {c : Char} {t : Token} (hc : isJsonBlank c = false)
    (h : splitToken? (c :: cs) = some (t, rest)) : tokens? (c :: cs) = (tokens? rest).map (t :: ·) := by
  rw [tokens?, if_neg (by simp [hc])]
  split
  · next r hr =>
    obtain rfl := Option.some.inj (hr.symm.trans h)
    rfl
  · next hr => rw [h] at hr; exact absurd hr (by simp)

theorem readFrom_token {cs : List Char} {c : Char} {t : Token} {expect expect' : Expect} {stack' : List Frame}
    (hc : isJsonBlank c = false) (h : splitToken? (c :: cs) = some (t, rest))
    (hstep : ∀ ts, build? stack expect (t :: ts) = build? stack' expect' ts) :
    readFrom stack expect (c :: cs) = readFrom stack' expect' rest := by
  unfold readFrom
  rw [tokens?_token hc h, Option.bind_map]
  congr 1
  funext ts
  exact hstep ts

theorem readFrom_blank (expect : Expect) {c : Char} (h : isJsonBlank c = true) :
    readFrom stack expect (c :: rest) = readFrom stack expect rest := by
  unfold readFrom
  rw [tokens?, if_pos h]

theorem readFrom_newLine (expect : Expect) (level : Nat) :
    readFrom stack expect (newLine level ++ rest) = readFrom stack expect rest := by
  have hblanks : ∀ n, readFrom stack expect (List.replicate n ' ' ++ rest) = readFrom stack expect rest := by
    intro n
    induction n with
    | zero => rfl
    | succ n ih => rw [List.replicate_succ, List.cons_append, readFrom_blank expect rfl, ih]
  rw [newLine, List.cons_append, readFrom_blank expect rfl, hblanks]

/-- The reader is about to read a value. -/
def TakesValue (expect : Expect) : Prop :=
  expect = .value ∨ expect = .firstItem

theorem readFrom_atom {expect : Expect} (he : TakesValue expect) {j : Json} {c : Char} {cs : List Char}
    (hc : isJsonBlank c = false) (h : splitToken? (c :: cs) = some (.atom j, rest)) :
    readFrom stack expect (c :: cs) = readFrom stack (.next j) rest := by
  rcases he with rfl | rfl
  · exact readFrom_token hc h fun _ => by rw [build?]
  · exact readFrom_token hc h fun _ => by rw [build?]

theorem readFrom_openArray {expect : Expect} (he : TakesValue expect) :
    readFrom stack expect ('[' :: rest) = readFrom (.array [] :: stack) .firstItem rest := by
  rcases he with rfl | rfl
  · exact readFrom_token rfl rfl fun _ => by rw [build?]
  · exact readFrom_token rfl rfl fun _ => by rw [build?]

theorem readFrom_openObject {expect : Expect} (he : TakesValue expect) :
    readFrom stack expect ('\x7B' :: rest) = readFrom (.object [] none :: stack) .firstName rest := by
  rcases he with rfl | rfl
  · exact readFrom_token rfl rfl fun _ => by rw [build?]
  · exact readFrom_token rfl rfl fun _ => by rw [build?]

theorem readFrom_name {expect : Expect} (he : expect = .name ∨ expect = .firstName)
    (members : List (Option String × Json)) (pending : Option String) (name : String) :
    readFrom (.object members pending :: stack) expect (quote name ++ ':' :: ' ' :: rest) =
      readFrom (.object members (some name) :: stack) .value rest := by
  have hcolon : readFrom (.object members pending :: stack) (.colon (some name)) (':' :: ' ' :: rest) =
      readFrom (.object members (some name) :: stack) .value rest := by
    rw [← readFrom_blank .value (c := ' ') rfl]
    exact readFrom_token rfl rfl fun _ => rfl
  rw [← hcolon]
  have hquote := splitToken?_quote name (':' :: ' ' :: rest)
  rcases he with rfl | rfl
  · exact readFrom_token rfl hquote fun _ => rfl
  · exact readFrom_token rfl hquote fun _ => rfl

end Steps

/-- The reader passes over the text of `j` as over a value. -/
def PassesOver (j : Json) : Prop :=
  ∀ level stack expect rest, TakesValue expect → Stops rest →
    readFrom stack expect (prettyText level j ++ rest) = readFrom stack (.next j) rest

theorem stops_newLine (level : Nat) (rest : List Char) : Stops (newLine level ++ rest) := by
  rintro c hc
  exact .inr (Option.some.inj hc).symm

theorem stops_prettyItems (level level' : Nat) (items : List Json) (rest : List Char) :
    Stops (prettyItems level items ++ (newLine level' ++ rest)) := by
  cases items with
  | nil => exact stops_newLine level' rest
  | cons j items =>
    rintro c hc
    rw [prettyItems] at hc
    exact .inl (Option.some.inj hc).symm

theorem stops_prettyMembers (level level' : Nat) (members : List (String × Json)) (rest : List Char) :
    Stops (prettyMembers level members ++ (newLine level' ++ rest)) := by
  cases members with
  | nil => exact stops_newLine level' rest
  | cons m members =>
    rintro c hc
    rw [prettyMembers] at hc
    exact .inl (Option.some.inj hc).symm

/-- The items after the first, up to the end of the array. -/
theorem readFrom_items {items : List Json} (h : ∀ j ∈ items, PassesOver j) (level level' : Nat)
    (stack : List Frame) (before : List Json) (j : Json) (rest : List Char) :
    readFrom (.array before.reverse :: stack) (.next j)
        (prettyItems level items ++ (newLine level' ++ ']' :: rest)) =
      readFrom stack (.next (.array (before ++ j :: items))) rest := by
  induction items generalizing before j with
  | nil =>
    rw [prettyItems, List.nil_append, readFrom_newLine]
    refine readFrom_token rfl rfl fun _ => ?_
    simp [build?]
  | cons k items ih =>
    rw [List.forall_mem_cons] at h
    have hcomma : ∀ rest, readFrom (.array before.reverse :: stack) (.next j) (',' :: rest) =
        readFrom (.array (before ++ [j]).reverse :: stack) .value rest := by
      intro rest
      refine readFrom_token rfl rfl fun _ => ?_
      simp [build?]
    have hk := h.1 level (.array (before ++ [j]).reverse :: stack) .value _ (.inl rfl)
      (stops_prettyItems level level' items (']' :: rest))
    have hitems := ih h.2 (before ++ [j]) k
    simp only [prettyItems, List.cons_append, List.append_assoc, List.nil_append] at hitems ⊢
    rw [hcomma, readFrom_newLine, hk, hitems]

/-- A member with its name, as it is kept while its object is open. -/
def named (m : String × Json) : Option String × Json :=
  (some m.1, m.2)

theorem ofMembers_named (members : List (String × Json)) : ofMembers (members.map named) = .object members := by
  have hmapM : (members.map named).mapM (fun m => m.1.map (·, m.2)) = some members := by
    induction members with
    | nil => rfl
    | cons m members ih => simp [named, ih]
  unfold ofMembers
  rw [hmapM]

/-- The members after the first, up to the end of the object. -/
theorem readFrom_members {members : List (String × Json)} (h : ∀ m ∈ members, PassesOver m.2)
    (level level' : Nat) (stack : List Frame) (before : List (String × Json)) (name : String) (j : Json)
    (rest : List Char) :
    readFrom (.object (before.map named).reverse (some name) :: stack) (.next j)
        (prettyMembers level members ++ (newLine level' ++ '\x7D' :: rest)) =
      readFrom stack (.next (.object (before ++ (name, j) :: members))) rest := by
  induction members generalizing before name j with
  | nil =>
    rw [prettyMembers, List.nil_append, readFrom_newLine]
    refine readFrom_token rfl rfl fun ts => ?_
    have hall : ((some name, j) :: (before.map named).reverse).reverse = (before ++ [(name, j)]).map named := by
      simp [named]
    simp only [build?, hall, ofMembers_named]
  | cons m members ih =>
    rw [List.forall_mem_cons] at h
    have hcomma : ∀ rest, readFrom (.object (before.map named).reverse (some name) :: stack) (.next j)
          (',' :: rest) =
        readFrom (.object ((before ++ [(name, j)]).map named).reverse none :: stack) .name rest := by
      intro rest
      refine readFrom_token rfl rfl fun _ => ?_
      simp [build?, named]
    have hm := h.1 level (.object ((before ++ [(name, j)]).map named).reverse (some m.1) :: stack) .value _
      (.inl rfl) (stops_prettyMembers level level' members ('\x7D' :: rest))
    have hmembers := ih h.2 (before ++ [(name, j)]) m.1 m.2
    simp only [prettyMembers, List.cons_append, List.append_assoc, List.nil_append] at hmembers ⊢
    rw [hcomma, readFrom_newLine, readFrom_name (.inl rfl), hm, hmembers]

theorem Exact.passesOver {j : Json} (h : Exact j) : PassesOver j := by
  induction h with
  | null =>
    intro level stack expect rest he _
    exact readFrom_atom he rfl rfl
  | bool b =>
    intro level stack expect rest he _
    cases b
    · exact readFrom_atom he rfl rfl
    · exact readFrom_atom he rfl rfl
  | @integer n hn =>
    intro level stack expect rest he hrest
    have htoken := splitToken?_signedDecimal hn hrest
    obtain ⟨c, cs, hcs, hne⟩ := head_signedDecimal n
    have hblank : isJsonBlank c = false := by
      simp [isJsonBlank, hne ' ', hne '\n', hne '\t', hne '\r']
    have htext : prettyText level (.integer n) = (signedDecimal n).toList := rfl
    rw [hcs, List.cons_append] at htoken
    rw [htext, hcs, List.cons_append]
    exact readFrom_atom he hblank htoken
  | string s =>
    intro level stack expect rest he _
    exact readFrom_atom he rfl (splitToken?_quote s rest)
  | @array items _ ih =>
    intro level stack expect rest he _
    cases items with
    | nil =>
      rw [prettyText, List.cons_append, readFrom_openArray he]
      exact readFrom_token rfl rfl fun _ => rfl
    | cons j items =>
      rw [List.forall_mem_cons] at ih
      have hj := ih.1 (level + 1) (.array [] :: stack) .firstItem _ (.inr rfl)
        (stops_prettyItems (level + 1) level items (']' :: rest))
      have hitems := readFrom_items ih.2 (level + 1) level stack [] j rest
      simp only [prettyText, List.cons_append, List.append_assoc, List.nil_append, List.reverse_nil] at hitems ⊢
      rw [readFrom_openArray he, readFrom_newLine, hj, hitems]
  | @object members _ ih =>
    intro level stack expect rest he _
    cases members with
    | nil =>
      rw [prettyText, List.cons_append, readFrom_openObject he]
      exact readFrom_token rfl rfl fun _ => rfl
    | cons m members =>
      rw [List.forall_mem_cons] at ih
      have hm := ih.1 (level + 1) (.object [] (some m.1) :: stack) .value _ (.inl rfl)
        (stops_prettyMembers (level + 1) level members ('\x7D' :: rest))
      have hmembers := readFrom_members ih.2 (level + 1) level stack [] m.1 m.2 rest
      simp only [prettyText, List.cons_append, List.append_assoc, List.nil_append, List.map_nil,
        List.reverse_nil] at hmembers ⊢
      rw [readFrom_openObject he, readFrom_newLine, readFrom_name (.inr rfl), hm, hmembers]

/-- The text of a value over several lines is read back as the value. -/
theorem parse?_pretty {j : Json} (h : Exact j) : parse? j.pretty = some j := by
  have hread := h.passesOver 0 [] .value [] (.inl rfl) (by simp [Stops])
  rw [List.append_nil] at hread
  unfold parse? pretty
  rw [String.toList_ofList]
  refine hread.trans ?_
  unfold readFrom
  rw [tokens?]
  rfl

end Json

end TypeDoctrine
