import TypeDoctrine.Proofs.PathReading

/-!
# The order of locations

Locations are compared through keys, which hold the code points of names. Here the order is said without
keys: paths by the components that they spell, with the root before a leading dot, that before the parent
directory and that before names, and names by their UTF-8 bytes; then lines, then columns
(`Location.Before`, `Location.SameKey`). `order_eq_lt` and `order_eq_eq` say that the comparison decides
these.

That comparing code points is comparing bytes is `lex_utf8`: of two characters the lower one has the lower
encoding, and no encoding starts another (`utf8_lt`).
-/

namespace TypeDoctrine

/-! ## Bytes of characters -/

theorem lex_byte {a b : Nat} {x y : List UInt8} (ha : a < 256) (hb : b < 256)
    (h : a < b ∨ a = b ∧ List.Lex (· < ·) x y) :
    List.Lex (· < ·) (UInt8.ofNat a :: x) (UInt8.ofNat b :: y) := by
  rcases h with h | ⟨rfl, h⟩
  · refine .rel ?_
    rw [UInt8.lt_iff_toNat_lt, UInt8.toNat_ofNat_of_lt' ha, UInt8.toNat_ofNat_of_lt' hb]
    exact h
  · exact .cons h

/-- The last byte decides when the bits above it are equal; `lex_last_two` and `lex_last_three` say the
same of two and three bytes. -/
theorem lex_last {m n : Nat} (h : m < n) (he : m / 64 = n / 64) (x y : List UInt8) :
    List.Lex (· < ·) (UInt8.ofNat (m % 64 + 0x80) :: x) (UInt8.ofNat (n % 64 + 0x80) :: y) :=
  lex_byte (by omega) (by omega) (.inl (by omega))

theorem lex_last_two {m n : Nat} (h : m < n) (he : m / 4096 = n / 4096) (x y : List UInt8) :
    List.Lex (· < ·) (UInt8.ofNat (m / 64 % 64 + 0x80) :: UInt8.ofNat (m % 64 + 0x80) :: x)
      (UInt8.ofNat (n / 64 % 64 + 0x80) :: UInt8.ofNat (n % 64 + 0x80) :: y) := by
  refine lex_byte (by omega) (by omega) ?_
  by_cases e : m / 64 = n / 64
  · exact .inr ⟨by rw [e], lex_last h e x y⟩
  · exact .inl (by omega)

theorem lex_last_three {m n : Nat} (h : m < n) (he : m / 262144 = n / 262144) (x y : List UInt8) :
    List.Lex (· < ·)
      (UInt8.ofNat (m / 4096 % 64 + 0x80) :: UInt8.ofNat (m / 64 % 64 + 0x80) ::
        UInt8.ofNat (m % 64 + 0x80) :: x)
      (UInt8.ofNat (n / 4096 % 64 + 0x80) :: UInt8.ofNat (n / 64 % 64 + 0x80) ::
        UInt8.ofNat (n % 64 + 0x80) :: y) := by
  refine lex_byte (by omega) (by omega) ?_
  by_cases e : m / 4096 = n / 4096
  · exact .inr ⟨by rw [e], lex_last_two h e x y⟩
  · exact .inl (by omega)

/-- Of two characters the lower one has the lower encoding, whatever follows. -/
theorem utf8_lt {c d : Char} (h : c.toNat < d.toNat) (x y : List UInt8) :
    List.Lex (· < ·) (String.utf8EncodeChar c ++ x) (String.utf8EncodeChar d ++ y) := by
  have hd : d.toNat < 0x110000 := by
    have := d.valid
    simp only [UInt32.isValidChar, Nat.isValidChar] at this
    unfold Char.toNat
    omega
  unfold String.utf8EncodeChar
  simp only [show c.val.toNat = c.toNat from rfl, show d.val.toNat = d.toNat from rfl]
  generalize c.toNat = m at *
  generalize d.toNat = n at *
  -- a longer encoding has a higher first byte; among equal lengths, the first bytes are compared first
  split
  · split
    · exact lex_byte (by omega) (by omega) (.inl h)
    · split
      · exact lex_byte (by omega) (by omega) (.inl (by omega))
      · split <;> exact lex_byte (by omega) (by omega) (.inl (by omega))
  · rw [if_neg (show ¬ n ≤ 0x7f by omega)]
    split
    · split
      · refine lex_byte (by omega) (by omega) ?_
        by_cases e : m / 64 = n / 64
        · exact .inr ⟨by rw [e], lex_last h e x y⟩
        · exact .inl (by omega)
      · split <;> exact lex_byte (by omega) (by omega) (.inl (by omega))
    · rw [if_neg (show ¬ n ≤ 0x7ff by omega)]
      split
      · split
        · refine lex_byte (by omega) (by omega) ?_
          by_cases e : m / 4096 = n / 4096
          · exact .inr ⟨by rw [e], lex_last_two h e x y⟩
          · exact .inl (by omega)
        · exact lex_byte (by omega) (by omega) (.inl (by omega))
      · rw [if_neg (show ¬ n ≤ 0xffff by omega)]
        refine lex_byte (by omega) (by omega) ?_
        by_cases e : m / 262144 = n / 262144
        · exact .inr ⟨by rw [e], lex_last_three h e x y⟩
        · exact .inl (by omega)

theorem lex_append_left {α : Type} {r : α → α → Prop} {x y : List α} (h : List.Lex r x y) (z : List α) :
    List.Lex r (z ++ x) (z ++ y) := by
  induction z with
  | nil => exact h
  | cons a z ih => exact .cons ih

theorem lex_utf8_of_lex {cs ds : List Char} (h : List.Lex (fun c d => c.toNat < d.toNat) cs ds) :
    List.Lex (· < ·) (cs.flatMap String.utf8EncodeChar) (ds.flatMap String.utf8EncodeChar) := by
  induction h with
  | nil =>
    rw [List.flatMap_nil, List.flatMap_cons]
    obtain ⟨b, bs, hb⟩ := List.exists_cons_of_ne_nil (String.utf8EncodeChar_ne_nil)
    rw [hb]
    exact .nil
  | cons _ ih => exact lex_append_left ih _
  | rel h => exact utf8_lt h _ _

/-! ## Comparing lists -/

/-- Lists are compared by their first difference, through an injective key of their elements. -/
theorem compare_map_eq_lt {α β : Type} [Ord β] [Std.LawfulEqOrd β] {f : α → β}
    (hf : ∀ a b, f a = f b → a = b) (xs ys : List α) :
    compare (xs.map f) (ys.map f) = .lt ↔ List.Lex (fun a b => compare (f a) (f b) = .lt) xs ys := by
  induction xs generalizing ys with
  | nil =>
    cases ys with
    | nil => exact ⟨(nomatch ·), (nomatch ·)⟩
    | cons y ys => exact ⟨fun _ => .nil, fun _ => rfl⟩
  | cons x xs ih =>
    cases ys with
    | nil => exact ⟨(nomatch ·), (nomatch ·)⟩
    | cons y ys =>
      have hc : compare ((x :: xs).map f) ((y :: ys).map f) =
          (compare (f x) (f y)).then (compare (xs.map f) (ys.map f)) := List.compareLex_cons_cons
      rw [hc, Ordering.then_eq_lt, Std.LawfulEqOrd.compare_eq_iff_eq, ih]
      constructor
      · rintro (h | ⟨h, hr⟩)
        · exact .rel h
        · obtain rfl := hf x y h
          exact .cons hr
      · intro h
        cases h with
        | rel h => exact .inl h
        | cons h => exact .inr ⟨rfl, h⟩

theorem toNat_inj (c d : Char) (h : c.toNat = d.toNat) : c = d :=
  Char.toNat_inj.1 h

theorem compare_toNat_eq_lt (cs ds : List Char) :
    compare (cs.map Char.toNat) (ds.map Char.toNat) = .lt ↔
      List.Lex (fun c d => c.toNat < d.toNat) cs ds := by
  rw [compare_map_eq_lt toNat_inj]
  simp only [Nat.compare_eq_lt]

/-- Comparing code points is comparing bytes. -/
theorem lex_utf8 (cs ds : List Char) :
    compare (cs.map Char.toNat) (ds.map Char.toNat) = .lt ↔
      List.Lex (· < ·) (cs.flatMap String.utf8EncodeChar) (ds.flatMap String.utf8EncodeChar) := by
  constructor
  · intro h
    exact lex_utf8_of_lex ((compare_toNat_eq_lt cs ds).1 h)
  · intro h
    -- the other outcomes of the comparison would give equal or reversed bytes
    cases hc : compare (cs.map Char.toNat) (ds.map Char.toNat) with
    | lt => rfl
    | eq =>
      have he := (List.map_inj_right toNat_inj).1 (Std.LawfulEqOrd.eq_of_compare hc)
      rw [he] at h
      exact absurd h (List.lt_irrefl _)
    | gt =>
      have hg := (compare_toNat_eq_lt ds cs).1 (Std.OrientedCmp.gt_iff_lt.1 hc)
      exact absurd h (List.lt_asymm (lex_utf8_of_lex hg))

/-! ## Paths -/

namespace Path

/-- Components of one kind have one rank. -/
def Component.rank : Component → Nat
  | .root => 0
  | .current => 1
  | .parent => 2
  | .name _ => 3

/-- The UTF-8 bytes of a name; the other components are alone of their kind and have none. -/
def Component.bytes : Component → List UInt8
  | .name s => s.toList.flatMap String.utf8EncodeChar
  | _ => []

/-- Root, current directory, parent directory, then names by their bytes. -/
def Component.Before (c d : Component) : Prop :=
  c.rank < d.rank ∨ c.rank = d.rank ∧ List.Lex (· < ·) c.bytes d.bytes

/-- Paths are ordered by the first component in which they differ. -/
def Before (p q : String) : Prop :=
  ∃ cs ds, Spells p cs ∧ Spells q ds ∧ List.Lex Component.Before cs ds

/-- Two spellings of one path. -/
def Same (p q : String) : Prop :=
  ∃ cs, Spells p cs ∧ Spells q cs

theorem before_iff (p q : String) : Before p q ↔ List.Lex Component.Before (components p) (components q) := by
  simp only [Before, spells_iff]
  constructor
  · rintro ⟨cs, ds, rfl, rfl, h⟩
    exact h
  · intro h
    exact ⟨_, _, rfl, rfl, h⟩

theorem same_iff (p q : String) : Same p q ↔ components p = components q := by
  simp only [Same, spells_iff]
  constructor
  · rintro ⟨cs, hp, hq⟩
    rw [hp, hq]
  · intro h
    exact ⟨_, h, rfl⟩

instance (p q : String) : Decidable (Same p q) :=
  decidable_of_iff _ (same_iff p q).symm

theorem Component.key_eq (c : Component) :
    ∃ cs : List Char, c.key = c.rank :: cs.map Char.toNat ∧ c.bytes = cs.flatMap String.utf8EncodeChar := by
  cases c with
  | root => exact ⟨[], rfl, rfl⟩
  | current => exact ⟨[], rfl, rfl⟩
  | parent => exact ⟨[], rfl, rfl⟩
  | name s => exact ⟨s.toList, rfl, rfl⟩

theorem Component.compare_key_eq_lt (c d : Component) : compare c.key d.key = .lt ↔ c.Before d := by
  obtain ⟨cs, hc, hcb⟩ := c.key_eq
  obtain ⟨ds, hd, hdb⟩ := d.key_eq
  have hk : compare c.key d.key =
      (compare c.rank d.rank).then (compare (cs.map Char.toNat) (ds.map Char.toNat)) := by
    rw [hc, hd]
    exact List.compareLex_cons_cons
  rw [hk, Ordering.then_eq_lt, Nat.compare_eq_lt, Nat.compare_eq_eq, lex_utf8, ← hcb, ← hdb]
  rfl

theorem Component.key_inj (c d : Component) (h : c.key = d.key) : c = d := by
  cases c with
  | name s =>
    cases d with
    | name t =>
      have ht : s.toList = t.toList := (List.map_inj_right toNat_inj).1 (List.cons.inj h).2
      rw [String.toList_inj.1 ht]
    | _ => simp [Component.key] at h
  | _ => cases d <;> simp_all [Component.key]

theorem compare_key_eq_lt (p q : String) : compare (key p) (key q) = .lt ↔ Before p q := by
  unfold key
  rw [before_iff, compare_map_eq_lt Component.key_inj]
  simp only [Component.compare_key_eq_lt]

theorem compare_key_eq_eq (p q : String) : compare (key p) (key q) = .eq ↔ Same p q := by
  unfold key
  rw [same_iff, Std.LawfulEqOrd.compare_eq_iff_eq, List.map_inj_right Component.key_inj]

end Path

/-! ## Locations -/

namespace Location

/-- The order of a report: by file, then by line, then by column. -/
def Before (l m : Location) : Prop :=
  Path.Before l.file m.file ∨
    Path.Same l.file m.file ∧ (l.line < m.line ∨ l.line = m.line ∧ l.column < m.column)

/-- Locations that the order does not tell apart; offset and length play no part. -/
def SameKey (l m : Location) : Prop :=
  Path.Same l.file m.file ∧ l.line = m.line ∧ l.column = m.column

instance (l m : Location) : Decidable (l.SameKey m) :=
  inferInstanceAs (Decidable (Path.Same l.file m.file ∧ _))

theorem order_eq (l m : Location) :
    order l m = (compare (Path.key l.file) (Path.key m.file)).then
      ((compare l.line m.line).then (compare l.column m.column)) :=
  rfl

theorem order_eq_lt (l m : Location) : order l m = .lt ↔ l.Before m := by
  simp only [order_eq, Ordering.then_eq_lt, Path.compare_key_eq_lt, Path.compare_key_eq_eq, Std.compare_eq_lt]
  rw [Std.LawfulEqOrd.compare_eq_iff_eq]
  rfl

theorem order_eq_eq (l m : Location) : order l m = .eq ↔ l.SameKey m := by
  simp only [order_eq, Ordering.then_eq_eq, Path.compare_key_eq_eq]
  rw [Std.LawfulEqOrd.compare_eq_iff_eq, Std.LawfulEqOrd.compare_eq_iff_eq]
  rfl

instance : Std.TransCmp order := by
  unfold order
  infer_instance

/-- The comparison allows `l` to stand before `m` unless `m` has to stand before `l`. -/
theorem order_isLE_iff (l m : Location) : (order l m).isLE = true ↔ ¬ m.Before l := by
  rw [← order_eq_lt, ← Std.OrientedCmp.gt_iff_lt, Ordering.isLE_iff_ne_gt]

end Location

end TypeDoctrine
