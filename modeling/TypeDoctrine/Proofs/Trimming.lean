import Mathlib.Data.List.TakeWhile
import TypeDoctrine.Text.Blank

/-!
# Trimming

What is left when a text is trimmed: nothing exactly of blank texts (`trim_eq_nil_iff`), and otherwise a text
without blanks at its ends, from which the whole differs by blanks only (`exists_trim_eq`, `trim_append`).
-/

namespace TypeDoctrine.Text

theorem exists_dropEndWhile_eq (p : Char → Bool) (cs : List Char) :
    ∃ after, (∀ c ∈ after, p c = true) ∧ cs = dropEndWhile p cs ++ after := by
  refine ⟨(cs.reverse.takeWhile p).reverse, fun c hc => ?_, ?_⟩
  · exact List.mem_takeWhile_imp (List.mem_reverse.1 hc)
  · unfold dropEndWhile
    rw [← List.reverse_append, List.takeWhile_append_dropWhile, List.reverse_reverse]

/-- Nothing before a character that is to stay is dropped. -/
theorem dropEndWhile_append_cons (p : Char → Bool) (cs after : List Char) {c : Char} (hc : p c = false) :
    dropEndWhile p (cs ++ c :: after) = cs ++ c :: dropEndWhile p after := by
  unfold dropEndWhile
  rw [List.reverse_append, List.reverse_cons, List.append_assoc, List.dropWhile_append]
  split
  · next he =>
    rw [List.isEmpty_iff.1 he]
    simp [hc]
  · simp

theorem dropEndWhile_append (p : Char → Bool) (cs : List Char) {after : List Char} {c : Char} (hc : p c = false)
    (h : ∀ d ∈ after, p d = true) : dropEndWhile p (cs ++ c :: after) = cs ++ [c] := by
  have hafter : dropEndWhile p after = [] := by
    rw [dropEndWhile, List.dropWhile_eq_nil_iff.2 fun d hd => h d (List.mem_reverse.1 hd), List.reverse_nil]
  rw [dropEndWhile_append_cons p cs after hc, hafter]

theorem exists_trim_eq (cs : List Char) :
    ∃ before after, (∀ c ∈ before ++ after, isBlank c = true) ∧ cs = before ++ trim cs ++ after := by
  obtain ⟨after, ha, he⟩ := exists_dropEndWhile_eq isBlank (cs.dropWhile isBlank)
  refine ⟨cs.takeWhile isBlank, after, ?_, ?_⟩
  · intro c hc
    rcases List.mem_append.1 hc with hc | hc
    · exact List.mem_takeWhile_imp hc
    · exact ha c hc
  · have hs : cs = cs.takeWhile isBlank ++ cs.dropWhile isBlank := List.takeWhile_append_dropWhile.symm
    rw [List.append_assoc]
    rw [he] at hs
    exact hs

theorem trim_eq_nil_iff (cs : List Char) : trim cs = [] ↔ ∀ c ∈ cs, isBlank c = true := by
  constructor
  · intro h c hc
    obtain ⟨before, after, hb, he⟩ := exists_trim_eq cs
    rw [h, List.append_nil] at he
    rw [he] at hc
    exact hb c hc
  · intro h
    unfold trim
    rw [List.dropWhile_eq_nil_iff.2 h]
    rfl

/-- Blanks fall away before and after what stands around a character that is no blank. -/
theorem trim_append_cons (before after : List Char) {c : Char} (hc : isBlank c = false) :
    trim (before ++ c :: after) = before.dropWhile isBlank ++ c :: trimEnd after := by
  have hfirst : (before ++ c :: after).dropWhile isBlank = before.dropWhile isBlank ++ c :: after := by
    rw [List.dropWhile_append]
    split
    · next he => rw [List.isEmpty_iff.1 he, List.dropWhile_cons_of_neg (by simp [hc]), List.nil_append]
    · rfl
  unfold trim trimEnd
  rw [hfirst, dropEndWhile_append_cons isBlank _ after hc]

/-- Blanks around a text that starts and ends with something else fall away. -/
theorem trim_append (before mid after : List Char) {a b : Char} (hb : ∀ c ∈ before, isBlank c = true)
    (ha : ∀ c ∈ after, isBlank c = true) (hfirst : isBlank a = false) (hlast : isBlank b = false)
    (hmid : ∃ cs ds, mid = a :: cs ∧ mid = ds ++ [b]) : trim (before ++ mid ++ after) = mid := by
  obtain ⟨cs, ds, hcs, hds⟩ := hmid
  unfold trim trimEnd
  rw [List.append_assoc, List.dropWhile_append_of_pos hb]
  have hd : (mid ++ after).dropWhile isBlank = ds ++ b :: after := by
    rw [hcs, List.cons_append, List.dropWhile_cons_of_neg (by simp [hfirst]), ← List.cons_append, ← hcs, hds]
    simp
  rw [hd, dropEndWhile_append isBlank ds hlast ha, hds]

theorem trimEnd_of_getLast? {cs : List Char} (h : ∀ c ∈ cs.getLast?, isBlank c = false) : trimEnd cs = cs := by
  rcases List.eq_nil_or_concat cs with rfl | ⟨ds, c, rfl⟩
  · rfl
  · rw [List.concat_eq_append] at h ⊢
    exact dropEndWhile_append isBlank ds (h c (by simp)) nofun

/-- Blanks around a text without blanks at its ends fall away, also around an empty one. -/
theorem trim_around (before after : List Char) {mid : List Char} (hb : ∀ c ∈ before, isBlank c = true)
    (ha : ∀ c ∈ after, isBlank c = true) (hfirst : ∀ c ∈ mid.head?, isBlank c = false)
    (hlast : ∀ c ∈ mid.getLast?, isBlank c = false) : trim (before ++ mid ++ after) = mid := by
  cases mid with
  | nil =>
    rw [List.append_nil]
    exact (trim_eq_nil_iff _).2 (List.forall_mem_append.2 ⟨hb, ha⟩)
  | cons c cs =>
    have hne : c :: cs ≠ [] := List.cons_ne_nil _ _
    exact trim_append before _ after hb ha (hfirst c rfl) (hlast _ (List.getLast?_eq_some_getLast hne))
      ⟨cs, _, rfl, (List.dropLast_concat_getLast hne).symm⟩

end TypeDoctrine.Text
