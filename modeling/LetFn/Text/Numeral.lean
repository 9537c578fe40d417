/-
LetFn/Text/Numeral.lean

Decimal numerals of signed 64-bit integers: an optional sign and at least
one ASCII digit, with a value from -2^63 to 2^63 - 1.  Zeros in front do not
count towards the limits.

Main statement: an integer within the limits is read back from its decimal
text (`integer?_decimal`).
-/
namespace LetFn.Text

/-- The least integer that a numeral can name, -2^63. -/
def minInteger : Int := -0x8000000000000000

/-- The greatest integer that a numeral can name, 2^63 - 1. -/
def maxInteger : Int := 0x7fffffffffffffff

/-! ### Reading -/

/-- The value of a run of ASCII digits; nothing for no digit at all or for
any other character. -/
def digitsValue? (digits : List Char) : Option Nat :=
  if digits ≠ [] ∧ digits.all Char.isDigit then some (Nat.ofDigitChars 10 digits 0) else none

/-- The value of digits behind an optional sign, however large it is. -/
def signedValue? : List Char → Option Int
  | '+' :: digits => (digitsValue? digits).map fun (n : Nat) => (n : Int)
  | '-' :: digits => (digitsValue? digits).map fun (n : Nat) => -(n : Int)
  | digits => (digitsValue? digits).map fun (n : Nat) => (n : Int)

/-- The integer that a numeral names, if it lies within the limits. -/
def integer? (numeral : String) : Option Int :=
  (signedValue? numeral.toList).filter fun n => minInteger ≤ n ∧ n ≤ maxInteger

/-! ### Writing -/

/-- The decimal text of an integer: no zero in front, and a sign only below zero. -/
def decimal : Int → String
  | .ofNat n => String.ofList (Nat.toDigits 10 n)
  | .negSucc n => String.ofList ('-' :: Nat.toDigits 10 (n + 1))

theorem digitsValue?_toDigits (n : Nat) : digitsValue? (Nat.toDigits 10 n) = some n := by
  have hne : Nat.toDigits 10 n ≠ [] := Nat.toDigits_ne_nil
  have hall : (Nat.toDigits 10 n).all Char.isDigit :=
    List.all_eq_true.mpr fun c hc => Nat.isDigit_of_mem_toDigits (by decide) (by decide) hc
  simp [digitsValue?, hne, hall, Nat.ofDigitChars_toDigits]

/-- A digit is no sign. -/
theorem signedValue?_of_digits {digits : List Char} (h : digits.all Char.isDigit) :
    signedValue? digits = (digitsValue? digits).map fun (n : Nat) => (n : Int) := by
  unfold signedValue?
  split
  · cases h
  · cases h
  · rfl

theorem signedValue?_toDigits (n : Nat) : signedValue? (Nat.toDigits 10 n) = some (n : Int) := by
  have hall : (Nat.toDigits 10 n).all Char.isDigit :=
    List.all_eq_true.mpr fun c hc => Nat.isDigit_of_mem_toDigits (by decide) (by decide) hc
  rw [signedValue?_of_digits hall, digitsValue?_toDigits]
  rfl

/-- The integer that a numeral without a sign names. -/
theorem eq_of_integer?_of_digits {numeral : String} {value : Int}
    (hd : numeral.toList.all Char.isDigit) (h : integer? numeral = some value) :
    value = (Nat.ofDigitChars 10 numeral.toList 0 : Nat) := by
  rw [integer?, signedValue?_of_digits hd, Option.filter_eq_some_iff, Option.map_eq_some_iff] at h
  obtain ⟨⟨n, hn, rfl⟩, -⟩ := h
  unfold digitsValue? at hn
  split at hn
  · exact congrArg _ (Option.some.inj hn).symm
  · cases hn

/-- A run of digits that names no integer within the limits is too large. -/
theorem lt_of_integer?_eq_none {numeral : String} (hne : numeral ≠ "")
    (hd : numeral.toList.all Char.isDigit) (h : integer? numeral = none) :
    maxInteger < (Nat.ofDigitChars 10 numeral.toList 0 : Nat) := by
  have hdigits : numeral.toList ≠ [] := by simpa using hne
  have hvalue : digitsValue? numeral.toList = some (Nat.ofDigitChars 10 numeral.toList 0) :=
    if_pos ⟨hdigits, hd⟩
  rw [integer?, signedValue?_of_digits hd, hvalue, Option.map_some,
    Option.filter_eq_none_iff] at h
  have hout := h _ rfl
  -- what is not negative can only be beyond the upper limit
  have hmin : minInteger ≤ (Nat.ofDigitChars 10 numeral.toList 0 : Nat) :=
    Int.le_trans (by decide) (Int.natCast_nonneg _)
  simpa [hmin] using hout

theorem integer?_decimal {n : Int} (hmin : minInteger ≤ n) (hmax : n ≤ maxInteger) :
    integer? (decimal n) = some n := by
  have key : signedValue? (decimal n).toList = some n := by
    cases n with
    | ofNat n => rw [decimal, String.toList_ofList, signedValue?_toDigits]; rfl
    | negSucc n =>
      rw [decimal, String.toList_ofList, signedValue?, digitsValue?_toDigits]
      rfl
  rw [integer?, key, Option.filter_some, if_pos (by simp [hmin, hmax])]

end LetFn.Text
