import Cascade.Toml.Table
import Cascade.Toml.Value
import Mathlib.Data.List.TakeWhile
set_option autoImplicit false

/-! Integers of TOML documents. Main statement: an integer that is written in decimal is read as the
same integer if 64 bits hold it; digits, with or without a sign, are no date, no time and no
floating-point number. -/

namespace Cascade.Toml

/-! ### Digits -/

theorem ne_of_isDigit {digit other : Char} (isDigit : digit.isDigit = true)
    (noDigit : other.isDigit = false) : digit ≠ other := by
  intro same
  rw [same, noDigit] at isDigit
  cases isDigit

theorem Scalar.digitOf_of_isDigit {digit : Char} (isDigit : digit.isDigit = true) :
    Scalar.spacedDigits?.digitOf 10 digit = some digit := by
  obtain ⟨notBelow, notAbove⟩ := (Bool.and_eq_true _ _).mp isDigit
  have above : '0' ≤ digit := of_decide_eq_true notBelow
  have below : digit ≤ '9' := of_decide_eq_true notAbove
  have small : digit.toNat - '0'.toNat < 10 := by
    have bound : digit.toNat ≤ '9'.toNat := below
    have zero : '0'.toNat = 48 := rfl
    have nine : '9'.toNat = 57 := rfl
    omega
  have value : Text.digitValue? 10 digit = some (digit.toNat - '0'.toNat) := by
    rw [Text.digitValue?, if_pos ⟨above, below⟩, Option.filter_some, if_pos (decide_eq_true small)]
  rw [Scalar.spacedDigits?.digitOf, value]
  rfl

/-! ### Words of digits -/

section Words

variable {digits : List Char} (allDigits : ∀ digit ∈ digits, digit.isDigit = true)

include allDigits

/-- A word with another character is no word of digits. -/
theorem ne_of_noDigit {word : List Char} (letter : Char) (inside : letter ∈ word)
    (noDigit : letter.isDigit = false) : digits ≠ word := by
  rintro rfl
  exact ne_of_isDigit (allDigits letter inside) noDigit rfl

theorem expect?_of_digits {mark : Char} (noDigit : mark.isDigit = false) :
    expect? mark digits = none := by
  cases digits with
  | nil => rfl
  | cons first rest =>
      exact if_neg (ne_of_isDigit (allDigits first List.mem_cons_self) noDigit)

/-- Behind a number of fixed width stand digits only, and no mark. -/
theorem expect?_of_fixed? {width number : Nat} {rest : List Char}
    (read : fixed? width digits = some (number, rest)) {mark : Char}
    (noDigit : mark.isDigit = false) : expect? mark rest = none := by
  simp only [fixed?] at read
  split at read
  · obtain ⟨_, _, same⟩ := Option.map_eq_some_iff.mp read
    obtain rfl : digits.drop width = rest := congrArg Prod.snd same
    have restDigits : ∀ digit ∈ digits.drop width, digit.isDigit = true :=
      fun digit listed => allDigits digit (List.mem_of_mem_drop listed)
    exact expect?_of_digits restDigits noDigit
  · cases read

theorem dateRead?_of_digits : Date.read? digits = none := by
  rw [Date.read?]
  cases read : fixed? 4 digits with
  | none => rfl
  | some found =>
      have noMark : expect? '-' found.2 = none := expect?_of_fixed? allDigits read (by decide)
      simp [noMark]

theorem timeRead?_of_digits : Time.read? digits = none := by
  rw [Time.read?]
  cases read : fixed? 2 digits with
  | none => rfl
  | some found =>
      have noMark : expect? ':' found.2 = none := expect?_of_fixed? allDigits read (by decide)
      simp [noMark]

theorem momentOfText?_of_digits : Moment.ofText? digits = none := by
  rw [Moment.ofText?, dateRead?_of_digits allDigits, timeRead?_of_digits allDigits]

namespace Scalar

theorem signed_of_digits : signed digits = (false, digits) := by
  unfold signed
  split
  · exact absurd (allDigits '-' List.mem_cons_self) (by decide)
  · exact absurd (allDigits '+' List.mem_cons_self) (by decide)
  · rfl

theorem spacedDigits?_of_digits (nonempty : digits ≠ []) :
    spacedDigits? 10 digits = some digits := by
  fun_induction spacedDigits? 10 digits with
  | case1 => exact absurd rfl nonempty
  | case2 digit =>
      rw [digitOf_of_isDigit (allDigits digit List.mem_cons_self)]
      rfl
  | case3 digit rest _ =>
      exact absurd (allDigits '_' (List.mem_cons_of_mem _ List.mem_cons_self)) (by decide)
  | case4 digit rest more _ ih =>
      obtain ⟨isDigit, restDigits⟩ := List.forall_mem_cons.mp allDigits
      rw [digitOf_of_isDigit isDigit, ih restDigits more]
      rfl

/-- Digits alone are no floating-point number. -/
theorem decimal?_of_digits (negative : Bool) : decimal? negative digits = none := by
  have noMark : digits.dropWhile (fun char => !(char = 'e' || char = 'E')) = [] := by
    refine List.dropWhile_eq_nil_iff.mpr fun digit listed => ?_
    have notLower : digit ≠ 'e' := ne_of_isDigit (allDigits digit listed) (by decide)
    have notUpper : digit ≠ 'E' := ne_of_isDigit (allDigits digit listed) (by decide)
    simp [notLower, notUpper]
  have noExponent : splitExponent digits = (digits, none) := by
    rw [splitExponent]
    simp only [noMark]
  have noFraction : digits.dropWhile (· ≠ '.') = [] :=
    List.dropWhile_eq_nil_iff.mpr fun digit listed =>
      decide_eq_true (ne_of_isDigit (allDigits digit listed) (by decide))
  rw [decimal?, noExponent]
  dsimp only
  rw [noFraction]
  -- Without a fraction and an exponent there is no number, whatever stands in front.
  cases wholeDigits? (digits.takeWhile (· ≠ '.')) with
  | none => rfl
  | some whole => rfl

theorem ofFloatWord?_of_digits {negative : Bool} {word : List Char}
    (split : signed word = (negative, digits)) : ofFloatWord? word = none := by
  have noInfinity : digits ≠ "inf".toList := ne_of_noDigit allDigits 'i' (by decide) (by decide)
  have noNan : digits ≠ "nan".toList := ne_of_noDigit allDigits 'n' (by decide) (by decide)
  rw [ofFloatWord?, split]
  simp only [if_neg noInfinity, if_neg noNan]
  exact decimal?_of_digits allDigits negative

end Scalar

end Words

/-! ### Words of numbers -/

/-- No date and no time begins with a sign. -/
theorem momentOfText?_minus (rest : List Char) : Moment.ofText? ('-' :: rest) = none := by
  have noNumber : ∀ width, fixed? (width + 1) ('-' :: rest) = none := by
    intro width
    have notDigit : ('-' :: rest.take width).all Char.isDigit = false := rfl
    simp only [fixed?, List.take_succ_cons, notDigit, Bool.and_false, Bool.false_eq_true, if_false]
  have noDate : Date.read? ('-' :: rest) = none := by
    rw [Date.read?, noNumber 3]
    rfl
  have noTime : Time.read? ('-' :: rest) = none := by
    rw [Time.read?, noNumber 1]
    rfl
  rw [Moment.ofText?, noDate, noTime]

namespace Scalar

theorem wholeDigits?_toDigits (number : Nat) :
    wholeDigits? (Nat.toDigits 10 number) = some (Nat.toDigits 10 number) := by
  have spaced : spacedDigits? 10 (Nat.toDigits 10 number) = some (Nat.toDigits 10 number) :=
    spacedDigits?_of_digits (Text.isDigit_of_mem_toDigits number) Nat.toDigits_ne_nil
  rw [wholeDigits?, spaced, Option.filter_some,
    if_pos (decide_eq_true (Text.head?_toDigits_or_length number))]

theorem integer?_toDigits (negative : Bool) {number : Int}
    (same : (if negative then -(number.natAbs : Int) else number.natAbs) = number)
    (fits : FitsWord number) :
    integer? negative 10 (Nat.toDigits 10 number.natAbs) =
      some (.integer (Int64.ofInt number)) := by
  rw [integer?, Text.numberOf?_toDigits, Option.bind_eq_bind, Option.bind_some]
  simp only [same]
  exact if_pos fits

theorem ofIntegerWord?_decimal {number : Int} (fits : FitsWord number) :
    ofIntegerWord? (Text.decimal number) = some (.integer (Int64.ofInt number)) := by
  have allDigits := Text.isDigit_of_mem_toDigits number.natAbs
  rw [Text.decimal]
  split
  · next negative =>
      have same : -(number.natAbs : Int) = number := by omega
      have tried : ofIntegerWord? ('-' :: Nat.toDigits 10 number.natAbs) =
          (wholeDigits? (Nat.toDigits 10 number.natAbs)).bind (integer? true 10) := rfl
      rw [tried, wholeDigits?_toDigits, Option.bind_some, integer?_toDigits true same fits]
  · next nonneg =>
      have same : (number.natAbs : Int) = number := by omega
      unfold ofIntegerWord?
      -- The words with a base mark come first, and the mark is a letter.
      split
      · next marked => exact absurd marked (ne_of_noDigit allDigits 'x' (by simp) (by decide))
      · next marked => exact absurd marked (ne_of_noDigit allDigits 'o' (by simp) (by decide))
      · next marked => exact absurd marked (ne_of_noDigit allDigits 'b' (by simp) (by decide))
      · rw [signed_of_digits allDigits]
        simp only [wholeDigits?_toDigits, Option.bind_eq_bind, Option.bind_some]
        exact integer?_toDigits false same fits

theorem ofWord?_decimal {number : Int} (fits : FitsWord number) :
    ofWord? (Text.decimal number) = some (.integer (Int64.ofInt number)) := by
  have allDigits := Text.isDigit_of_mem_toDigits number.natAbs
  have noMoment : Moment.ofText? (Text.decimal number) = none := by
    rw [Text.decimal]
    split
    · exact momentOfText?_minus _
    · exact momentOfText?_of_digits allDigits
  have noFloat : ofFloatWord? (Text.decimal number) = none := by
    rw [Text.decimal]
    split
    · exact ofFloatWord?_of_digits allDigits rfl
    · exact ofFloatWord?_of_digits allDigits (signed_of_digits allDigits)
  rw [ofWord?, if_neg (Text.decimal_ne 't' (by decide) (by decide) (by decide) number),
    if_neg (Text.decimal_ne 'f' (by decide) (by decide) (by decide) number), noMoment, noFloat]
  exact ofIntegerWord?_decimal fits

end Scalar

end Cascade.Toml
