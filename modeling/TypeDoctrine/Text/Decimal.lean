import TypeDoctrine.Text.Ascii

/-!
# Decimal text

Natural numbers in decimal digits, without leading zeros.
-/

namespace TypeDoctrine.Text

/-- The character of a digit below sixteen. -/
def digitChar (d : Nat) : Char :=
  if d < 10 then Char.ofNat ('0'.toNat + d) else Char.ofNat ('a'.toNat + (d - 10))

/-- The decimal digits of a number, most significant first. -/
def digits (n : Nat) : List Char :=
  if n < 10 then [digitChar n] else digits (n / 10) ++ [digitChar (n % 10)]
termination_by n
decreasing_by omega

/-- A number in decimal. -/
def decimal (n : Nat) : String :=
  String.ofList (digits n)

/-- An integer in decimal, with a minus sign when negative. -/
def signedDecimal : Int → String
  | .ofNat n => decimal n
  | .negSucc n => "-" ++ decimal (n + 1)

theorem digitValue?_digitChar : ∀ d < 16, digitValue? (digitChar d) = some d := by
  decide

theorem ofDigits_append (base : Nat) (a b : List Char) :
    ofDigits base (a ++ b) = b.foldl (fun n c => n * base + (digitValue? c).getD 0) (ofDigits base a) := by
  simp [ofDigits, List.foldl_append]

/-- Reading the digits of a number gives the number. -/
theorem ofDigits_digits (n : Nat) : ofDigits 10 (digits n) = n := by
  rw [digits]
  split
  · next h =>
    simp only [ofDigits, List.foldl_cons, List.foldl_nil]
    rw [digitValue?_digitChar n (by omega)]
    simp
  · rw [ofDigits_append, ofDigits_digits (n / 10)]
    simp only [List.foldl_cons, List.foldl_nil]
    rw [digitValue?_digitChar (n % 10) (by omega)]
    simp only [Option.getD_some]
    omega
termination_by n
decreasing_by omega

theorem isDigit_digitChar : ∀ d < 10, (digitChar d).isDigit = true := by
  decide

theorem digitChar_eq_zero : ∀ d < 10, digitChar d = '0' → d = 0 := by
  decide

theorem forall_mem_digits (n : Nat) : ∀ c ∈ digits n, c.isDigit = true := by
  rw [digits]
  split
  · next h =>
    intro c hc
    obtain rfl := List.mem_singleton.1 hc
    exact isDigit_digitChar n h
  · intro c hc
    rcases List.mem_append.1 hc with hc | hc
    · exact forall_mem_digits (n / 10) c hc
    · obtain rfl := List.mem_singleton.1 hc
      exact isDigit_digitChar (n % 10) (by omega)
termination_by n
decreasing_by omega

/-- A number has a first digit, and only the number zero has a zero there. -/
theorem exists_digits_eq (n : Nat) :
    ∃ d ds, digits n = d :: ds ∧ d.isDigit = true ∧ (d = '0' → n = 0 ∧ ds = []) := by
  rw [digits]
  split
  · next h => exact ⟨_, _, rfl, isDigit_digitChar n h, fun hd => ⟨digitChar_eq_zero n h hd, rfl⟩⟩
  · next h =>
    obtain ⟨d, ds, hds, hd, hzero⟩ := exists_digits_eq (n / 10)
    refine ⟨d, ds ++ [digitChar (n % 10)], by rw [hds]; rfl, hd, ?_⟩
    intro h0
    have := (hzero h0).1
    omega
termination_by n
decreasing_by omega

end TypeDoctrine.Text
