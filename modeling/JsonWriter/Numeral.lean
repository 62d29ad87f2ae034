/-! Decimal numerals of integers. Numerals have a greatest length: a longer integer has none. -/
namespace JsonWriter.Numeral

/-- The most digits that a numeral may have, its sign not counted. -/
def maxDigits : Nat := 4300

/-- No leading zeros, no plus sign. -/
def ofInt (n : Int) : List Char :=
  if n < 0 then '-' :: Nat.toDigits 10 n.natAbs else Nat.toDigits 10 n.natAbs

def ofInt? (n : Int) : Option String :=
  if n.natAbs < Nat.pow 10 maxDigits then some (String.ofList (ofInt n)) else none

/-- The numeral of a count, such as a nesting level; counts are never too long. -/
def ofCount (n : Nat) : String := String.ofList (Nat.toDigits 10 n)

/-- The number that a row of digits stands for. -/
def value (digits : List Char) : Nat := Nat.ofDigitChars 10 digits 0

@[simp] theorem value_toDigits (n : Nat) : value (Nat.toDigits 10 n) = n :=
  Nat.ofDigitChars_toDigits (by decide) (by decide)

theorem digitChar_of_isDigit {c : Char} (h : c.isDigit = true) :
    c.toNat - '0'.toNat < 10 ∧ Nat.digitChar (c.toNat - '0'.toNat) = c := by
  simp only [Char.isDigit, Bool.and_eq_true, decide_eq_true_eq, UInt32.le_iff_toNat_le] at h
  have hlow : '0'.toNat ≤ c.toNat := h.1
  have hhigh : c.toNat ≤ '9'.toNat := h.2
  have hnine : '9'.toNat = '0'.toNat + 9 := rfl
  have hlt : c.toNat - '0'.toNat < 10 := by omega
  refine ⟨hlt, Char.toNat_inj.1 ?_⟩
  rw [Nat.toNat_digitChar_of_lt_ten hlt]
  change '0'.toNat + (c.toNat - '0'.toNat) = c.toNat
  omega

theorem value_concat (digits : List Char) (c : Char) :
    value (digits ++ [c]) = 10 * value digits + (c.toNat - '0'.toNat) := by
  unfold value
  rw [Nat.ofDigitChars_append, Nat.ofDigitChars_cons, Nat.ofDigitChars_nil]

end JsonWriter.Numeral
