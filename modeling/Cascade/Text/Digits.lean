set_option autoImplicit false

/-! Digits of a number in a base up to thirty-six: written in lower case, read in either. Main
statement: the decimal digits of a number read back as the number. -/

namespace Cascade.Text

def hexDigit (number : Nat) : Char :=
  if number < 10 then Char.ofNat ('0'.toNat + number) else Char.ofNat ('a'.toNat + (number - 10))

/-- Exactly `width` digits, the number reduced to as many. -/
def hexPadded : (width : Nat) → Nat → List Char
  | 0, _ => []
  | width + 1, number => hexPadded width (number / 16) ++ [hexDigit (number % 16)]

/-- An integer in decimal, a minus sign in front of it if it is negative. -/
def decimal (number : Int) : List Char :=
  if number < 0 then '-' :: Nat.toDigits 10 number.natAbs else Nat.toDigits 10 number.natAbs

/-- The value of one digit below the base; letters stand for ten and more. -/
def digitValue? (base : Nat) (char : Char) : Option Nat :=
  let value? :=
    if '0' ≤ char ∧ char ≤ '9' then some (char.toNat - '0'.toNat)
    else if 'a' ≤ char ∧ char ≤ 'z' then some (char.toNat - 'a'.toNat + 10)
    else if 'A' ≤ char ∧ char ≤ 'Z' then some (char.toNat - 'A'.toNat + 10)
    else none
  value?.filter (· < base)

/-- The number that a run of digits writes; no digit at all writes zero. -/
def numberOf? (base : Nat) (digits : List Char) : Option Nat :=
  digits.foldlM (fun number char => (digitValue? base char).map (number * base + ·)) 0

/-! ### Decimal digits -/

theorem isDigit_of_mem_toDigits (number : Nat) :
    ∀ digit ∈ Nat.toDigits 10 number, digit.isDigit = true :=
  fun _ listed => Nat.isDigit_of_mem_toDigits (by decide) (by decide) listed

theorem mem_decimal {number : Int} {char : Char} (inside : char ∈ decimal number) :
    char.isDigit = true ∨ char = '-' := by
  rw [decimal] at inside
  split at inside
  · rcases List.mem_cons.mp inside with sign | digit
    · exact .inr sign
    · exact .inl (isDigit_of_mem_toDigits _ char digit)
  · exact .inl (isDigit_of_mem_toDigits _ char inside)

theorem decimal_ne_nil (number : Int) : decimal number ≠ [] := by
  rw [decimal]
  split
  · exact List.cons_ne_nil _ _
  · exact Nat.toDigits_ne_nil

/-- A word with a letter is no number. -/
theorem decimal_ne {word : List Char} (letter : Char) (inside : letter ∈ word)
    (noDigit : letter.isDigit = false) (noSign : letter ≠ '-') (number : Int) :
    decimal number ≠ word := by
  rintro rfl
  rcases mem_decimal inside with isDigit | isSign
  · rw [isDigit] at noDigit
    cases noDigit
  · exact noSign isSign

/-- Only the number zero begins with a zero. -/
theorem head?_toDigits {number : Nat} (nonzero : number ≠ 0) :
    (Nat.toDigits 10 number).head? ≠ some '0' := by
  induction number using Nat.strongRecOn with
  | ind number ih =>
      by_cases small : number < 10
      · rw [Nat.toDigits_of_lt_base small, List.head?_cons]
        intro zero
        exact nonzero (Nat.digitChar_eq_zero.mp (Option.some.inj zero))
      · have large : 10 ≤ number := Nat.le_of_not_lt small
        rw [Nat.toDigits_of_base_le (by decide) large, List.head?_append]
        have earlier := ih (number / 10) (by omega) (by omega)
        cases first : (Nat.toDigits 10 (number / 10)).head? with
        | none => exact absurd (List.head?_eq_none_iff.mp first) Nat.toDigits_ne_nil
        | some digit =>
            rw [first] at earlier
            exact earlier

/-- A zero in front is the whole number. -/
theorem head?_toDigits_or_length (number : Nat) :
    (Nat.toDigits 10 number).head? ≠ some '0' ∨ (Nat.toDigits 10 number).length = 1 := by
  by_cases zero : number = 0
  · rw [zero]
    exact .inr rfl
  · exact .inl (head?_toDigits zero)

theorem numberOf?_concat (base : Nat) (digits : List Char) (char : Char) :
    numberOf? base (digits ++ [char]) = (numberOf? base digits).bind fun number =>
      (digitValue? base char).map (number * base + ·) := by
  rw [numberOf?, List.foldlM_append]
  simp only [List.foldlM_cons, List.foldlM_nil, bind_pure]
  rfl

theorem digitValue?_digitChar : ∀ digit < 10, digitValue? 10 digit.digitChar = some digit := by
  decide

theorem numberOf?_toDigits (number : Nat) :
    numberOf? 10 (Nat.toDigits 10 number) = some number := by
  induction number using Nat.strongRecOn with
  | ind number ih =>
      by_cases small : number < 10
      · rw [Nat.toDigits_of_lt_base small]
        simp [numberOf?, digitValue?_digitChar number small]
      · have large : 10 ≤ number := Nat.le_of_not_lt small
        have last := digitValue?_digitChar (number % 10) (Nat.mod_lt _ (by decide))
        rw [Nat.toDigits_of_base_le (by decide) large, numberOf?_concat, ih _ (by omega),
          Option.bind_some, last, Option.map_some, Nat.div_add_mod']

end Cascade.Text
