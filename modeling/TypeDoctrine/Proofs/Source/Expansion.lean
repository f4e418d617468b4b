import TypeDoctrine.Proofs.Source.Lexeme

/-!
# Expanding interpolated strings, character by character

What `splitHole`, `splitHoles` and `expandFrom` do with one character or one string at the front of a text.
The scanners return what they took and what is left; taking `c` first is `Prod.map (c :: ·) id`.
-/

namespace TypeDoctrine.Source

/-! ## Holes -/

/-- The characters that a hole passes over: no quote, no bracket, no colon and no at sign. -/
def isInert (c : Char) : Bool :=
  !(['"', '\'', '(', ')', '[', ']', '{', '}', ':', '@'].contains c)

theorem isInert_iff (c : Char) :
    isInert c = true ↔ c ≠ '"' ∧ c ≠ '\'' ∧ c ≠ '(' ∧ c ≠ ')' ∧ c ≠ '[' ∧ c ≠ ']' ∧ c ≠ '{' ∧ c ≠ '}' ∧ c ≠ ':' ∧
      c ≠ '@' := by
  simp [isInert]

theorem splitHole_cons_of_isInert {c : Char} (hc : isInert c = true) (depth : Nat) (inFormat : Bool)
    (rest : List Char) :
    splitHole depth false inFormat (c :: rest) =
      Prod.map (fun taken => if inFormat then taken else c :: taken) id (splitHole depth false inFormat rest) := by
  have hc := (isInert_iff c).1 hc
  have hd : depthAfter depth c = depth := by simp [depthAfter, hc]
  have hat : (c == '@') = false := by simp [hc]
  rw [splitHole]
  simp [hc, hd, hat, Prod.map]

theorem splitHole_opener (b : Bracket) (depth : Nat) (rest : List Char) :
    splitHole depth false false (b.opener :: rest) =
      Prod.map (b.opener :: ·) id (splitHole (depth + 1) false false rest) := by
  cases b <;> simp [splitHole, Bracket.opener, depthAfter, Prod.map]

theorem splitHole_closer (b : Bracket) (depth : Nat) (rest : List Char) :
    splitHole (depth + 1) false false (b.closer :: rest) =
      Prod.map (b.closer :: ·) id (splitHole depth false false rest) := by
  cases b <;> simp [splitHole, Bracket.closer, depthAfter, Prod.map]

theorem splitHole_end (inFormat : Bool) (rest : List Char) :
    splitHole 0 false inFormat ('}' :: rest) = ([], rest) := by
  simp [splitHole]

theorem splitHole_colon (rest : List Char) :
    splitHole 0 false false (':' :: rest) = splitHole 0 false true rest := by
  simp [splitHole]

theorem splitHole_append_of_isInert {cs : List Char} (hcs : ∀ c ∈ cs, isInert c = true) (depth : Nat)
    (rest : List Char) :
    splitHole depth false false (cs ++ rest) = Prod.map (cs ++ ·) id (splitHole depth false false rest) := by
  induction cs with
  | nil => rfl
  | cons c cs ih =>
    obtain ⟨hc, hcs⟩ := List.forall_mem_cons.1 hcs
    rw [List.cons_append, splitHole_cons_of_isInert hc, ih hcs]
    rfl

/-- A format is passed over up to the end of the hole. -/
theorem splitHole_format {cs : List Char} (hcs : ∀ c ∈ cs, isInert c = true) (rest : List Char) :
    splitHole 0 false true (cs ++ '}' :: rest) = ([], rest) := by
  induction cs with
  | nil => exact splitHole_end true rest
  | cons c cs ih =>
    obtain ⟨hc, hcs⟩ := List.forall_mem_cons.1 hcs
    rw [List.cons_append, splitHole_cons_of_isInert hc, ih hcs]
    rfl

/-! ## The body of an interpolated string -/

theorem splitHoles_literal {c : Char} (hc : c ≠ '"' ∧ c ≠ '\\' ∧ c ≠ '{' ∧ c ≠ '}') (rest : List Char) :
    splitHoles false (c :: rest) = splitHoles false rest := by
  rw [splitHoles]
  simp [hc]

theorem splitHoles_escaped {c : Char} (hc : c = '{' ∨ c = '}') (rest : List Char) :
    splitHoles false (c :: c :: rest) = splitHoles false rest := by
  rw [splitHoles]
  rcases hc with rfl | rfl <;> simp

theorem splitHoles_hole {cs hole rest : List Char} (h : splitHole 0 false false (' ' :: cs) = (hole, rest)) :
    splitHoles false ('{' :: ' ' :: cs) = Prod.map (hole :: ·) id (splitHoles false rest) := by
  rw [splitHoles]
  simp [h, Prod.map]

theorem splitHoles_end (rest : List Char) : splitHoles false ('"' :: rest) = ([], rest) := by
  simp [splitHoles]

/-! ## Expansion -/

theorem expand_of_not_mem {cs : List Char} (h : '$' ∉ cs) : expand cs = cs := by
  rw [expand, if_neg (by simpa using h)]

theorem expandFrom_cons {c : Char} (hc : isPlain c = true) (rest : List Char) :
    expandFrom false (c :: rest) = c :: expandFrom false rest := by
  have hc := (isPlain_iff c).1 hc
  have hi : interpolationBody? (c :: rest) = none := by
    unfold interpolationBody?
    split <;> simp_all
  have hat : (c == '@') = false := beq_eq_false_iff_ne.2 hc.2.2.2.2
  rw [expandFrom.eq_2, if_neg (by simp [hc]), if_neg (by simp [hc]), if_neg (by simp [hc]), hat]
  split
  · simp_all
  · rfl

theorem expandFrom_append {cs : List Char} (hcs : ∀ c ∈ cs, isPlain c = true) (rest : List Char) :
    expandFrom false (cs ++ rest) = cs ++ expandFrom false rest := by
  induction cs with
  | nil => rfl
  | cons c cs ih =>
    obtain ⟨hc, hcs⟩ := List.forall_mem_cons.1 hcs
    rw [List.cons_append, expandFrom_cons hc, ih hcs, List.cons_append]

theorem expandFrom_string {body : List Char} (hbody : ∀ c ∈ body, c ≠ '"' ∧ c ≠ '\\') (rest : List Char) :
    expandFrom false ('"' :: (body ++ '"' :: rest)) = '"' :: (body ++ '"' :: expandFrom false rest) := by
  rw [expandFrom.eq_2]
  simp [splitLiteral_append_quote hbody]

/-- An interpolated string becomes its holes in round brackets, expanded themselves. -/
theorem expandFrom_interpolation (afterAt : Bool) {verbatim : Bool} {c : Char} {tail body rest : List Char}
    {holes : List (List Char)} (hopen : interpolationBody? (c :: tail) = some (verbatim, body))
    (h : splitHoles verbatim body = (holes, rest)) :
    expandFrom afterAt (c :: tail) =
      ' ' :: holes.flatMap (fun hole => '(' :: expand hole ++ [')', ' ']) ++ expandFrom false rest := by
  have hc : c ≠ '/' ∧ c ≠ '"' ∧ c ≠ '\'' := by
    unfold interpolationBody? at hopen
    split at hopen <;> simp_all
  -- each hole comes with the proof that it is one, which only the recursion needs
  have hattach : (splitHoles verbatim body).1.attach.flatMap (fun hole => '(' :: expand hole.1 ++ [')', ' ']) =
      holes.flatMap fun hole => '(' :: expand hole ++ [')', ' '] := by
    rw [List.flatMap_subtype (g := fun hole => '(' :: expand hole ++ [')', ' ']) fun _ _ => rfl,
      List.unattach_attach, h]
  rw [expandFrom.eq_2, if_neg (by simp [hc]), if_neg (by simp [hc]), if_neg (by simp [hc])]
  split
  · next hb =>
    rw [hopen] at hb
    simp only [Option.some.injEq, Prod.mk.injEq] at hb
    obtain ⟨rfl, rfl⟩ := hb
    simp only [hattach, h]
  · next hb =>
    rw [hopen] at hb
    exact absurd hb (by simp)

end TypeDoctrine.Source
