import Cascade.Json.Format
import Mathlib.Algebra.Group.Int.Defs
import Mathlib.Algebra.Group.Nat.Defs
import Mathlib.Data.List.TakeWhile
set_option autoImplicit false

/-! Literals and strings of compact JSON text. Main statements: an integer of 64 bits, with or
without a sign, reads back from its digits, and a string from its escapes. -/

namespace Cascade

namespace Text

/-! ### Hexadecimal digits -/

theorem digitValue?_hexDigit : ∀ digit < 16, digitValue? 16 (hexDigit digit) = some digit := by
  decide

theorem numberOf?_hexPadded (width number : Nat) :
    numberOf? 16 (hexPadded width number) = some (number % 16 ^ width) := by
  induction width generalizing number with
  | zero => simp [hexPadded, numberOf?, Nat.mod_one]
  | succ width ih =>
      have last : digitValue? 16 (hexDigit (number % 16)) = some (number % 16) :=
        digitValue?_hexDigit _ (Nat.mod_lt _ (by decide))
      have whole : number / 16 % 16 ^ width * 16 + number % 16 = number % 16 ^ (width + 1) := by
        rw [Nat.pow_succ', Nat.mod_mul, Nat.mul_comm, Nat.add_comm]
      rw [hexPadded, numberOf?_concat, ih, last, Option.bind_some, Option.map_some, whole]

end Text

namespace Json

/-! ### Literals of digits -/

namespace Literal

theorem le_ofDigitChars (digits : List Char) (start : Nat) :
    start ≤ Nat.ofDigitChars 10 digits start := by
  induction digits generalizing start with
  | nil => exact Nat.le_of_eq Nat.ofDigitChars_nil.symm
  | cons digit rest ih =>
      rw [Nat.ofDigitChars_cons]
      exact Nat.le_trans (by omega) (ih _)

/-- A significand takes all digits, unless the number that they write is too great for it. -/
theorem absorb_eq {digits : List Char} {significand : Nat}
    (fits : Nat.ofDigitChars 10 digits significand < significandBound) :
    absorb significand digits = (Nat.ofDigitChars 10 digits significand, []) := by
  induction digits generalizing significand with
  | nil => rw [Nat.ofDigitChars_nil, absorb]
  | cons digit rest ih =>
      rw [Nat.ofDigitChars_cons, Nat.mul_comm] at fits ⊢
      rw [absorb, if_pos (Nat.lt_of_le_of_lt (le_ofDigitChars rest _) fits)]
      exact ih fits

/-- A literal that is an integer: its digits, with a minus sign in front of them or none. -/
def ofDigits (negative : Bool) (number : Nat) : Literal :=
  ⟨negative, Nat.toDigits 10 number, none, none⟩

theorem splitDigits_of_isDigit {digits : List Char}
    (allDigits : ∀ digit ∈ digits, digit.isDigit = true) : splitDigits digits = (digits, []) := by
  rw [splitDigits, List.takeWhile_eq_self_iff.mpr allDigits,
    List.dropWhile_eq_nil_iff.mpr allDigits]

theorem ofText?_toDigits (number : Nat) :
    ofText? (Nat.toDigits 10 number) = some (ofDigits false number) ∧
      ofText? ('-' :: Nat.toDigits 10 number) = some (ofDigits true number) := by
  have allDigits := Text.isDigit_of_mem_toDigits number
  have nonempty : (Nat.toDigits 10 number).isEmpty = false :=
    List.isEmpty_eq_false_iff.mpr Nat.toDigits_ne_nil
  have noZero : (decide ((Nat.toDigits 10 number).head? = some '0') &&
      decide ((Nat.toDigits 10 number).length ≠ 1)) = false := by
    rcases Text.head?_toDigits_or_length number with noZero | single
    · rw [decide_eq_false noZero, Bool.false_and]
    · rw [decide_eq_false (not_not_intro single), Bool.and_false]
  rw [ofDigits, ofDigits]
  generalize Nat.toDigits 10 number = digits at allDigits nonempty noZero ⊢
  constructor
  · unfold ofText?
    split
    next negative unsigned signed =>
      split at signed
      · have impossible := allDigits '-' List.mem_cons_self
        cases impossible
      · cases signed
        simp only [splitDigits_of_isDigit allDigits, nonempty, noZero]
        rfl
  · unfold ofText?
    simp only [splitDigits_of_isDigit allDigits, nonempty, noZero]
    rfl

theorem number?_of_nonneg {number : Nat} (fits : number < significandBound) :
    (ofDigits false number).number? = some (.integer number) := by
  have value : Nat.ofDigitChars 10 (Nat.toDigits 10 number) 0 = number :=
    Nat.ofDigitChars_ten_toDigits
  have absorbed := absorb_eq (value.symm ▸ fits)
  rw [value] at absorbed
  simp only [number?, ofDigits, absorbed]
  rfl

theorem number?_of_neg {number : Nat} (positive : 0 < number)
    (fits : number ≤ significandBound / 2) :
    (ofDigits true number).number? = some (.integer (-number)) := by
  have value : Nat.ofDigitChars 10 (Nat.toDigits 10 number) 0 = number :=
    Nat.ofDigitChars_ten_toDigits
  have below : number < significandBound := by
    unfold significandBound at fits ⊢
    omega
  have absorbed := absorb_eq (value.symm ▸ below)
  rw [value] at absorbed
  have notFloat : ¬(number = 0 ∨ significandBound / 2 < number) := by omega
  simp only [number?, ofDigits, absorbed, if_neg notFloat]
  rfl

end Literal

/-! ### Integers -/

theorem isWordChar_of_mem_decimal {number : Int} {char : Char}
    (inside : char ∈ Text.decimal number) : isWordChar char = true := by
  rcases Text.mem_decimal inside with digit | rfl
  · simp [isWordChar, Char.isAlphanum, digit]
  · decide

/-- None of the three names is written for an integer. -/
theorem wordToken?_of_decimal (number : Int) :
    wordToken? (Text.decimal number) = do
      let literal ← Literal.ofText? (Text.decimal number)
      let value ← literal.number?
      return .scalar value := by
  rw [wordToken?, if_neg (Text.decimal_ne 'n' (by decide) (by decide) (by decide) number),
    if_neg (Text.decimal_ne 't' (by decide) (by decide) (by decide) number),
    if_neg (Text.decimal_ne 'f' (by decide) (by decide) (by decide) number)]

/-- The literal of an integer is read as the same integer. -/
theorem wordToken?_decimal {number : Int} (low : -0x8000000000000000 ≤ number)
    (high : number < 0x10000000000000000) :
    wordToken? (Text.decimal number) = some (.scalar (.integer number)) := by
  obtain ⟨unsigned, signed⟩ := Literal.ofText?_toDigits number.natAbs
  rw [wordToken?_of_decimal, Text.decimal]
  split
  · next negative =>
      have positive : 0 < number.natAbs := by omega
      have fits : number.natAbs ≤ Literal.significandBound / 2 := by
        unfold Literal.significandBound
        omega
      have same : -(number.natAbs : Int) = number := by omega
      rw [signed, Option.bind_eq_bind, Option.bind_some, Literal.number?_of_neg positive fits, same]
      rfl
  · next nonneg =>
      have fits : number.natAbs < Literal.significandBound := by
        unfold Literal.significandBound
        omega
      have same : (number.natAbs : Int) = number := by omega
      rw [unsigned, Option.bind_eq_bind, Option.bind_some, Literal.number?_of_nonneg fits, same]
      rfl

/-! ### Strings -/

theorem writesUnit_hexPadded {unit : Nat} (fits : unit < 16 ^ 4) :
    WritesUnit (Text.hexPadded 4 unit) unit := by
  have value := Text.numberOf?_hexPadded 4 unit
  rw [Nat.mod_eq_of_lt fits] at value
  exact ⟨rfl, value⟩

theorem charSpelling_escapedChar (char : Char) : CharSpelling char (escapedChar char) := by
  unfold escapedChar
  split
  · exact .short (by decide)
  · exact .short (by decide)
  · exact .short (by decide)
  · exact .short (by decide)
  · exact .short (by decide)
  · exact .short (by decide)
  · exact .short (by decide)
  · next noQuote noSlash _ _ _ _ _ =>
      split
      · next control => exact .unit (writesUnit_hexPadded (by omega))
      · next printed => exact .plain noQuote noSlash printed

theorem textSpelling_writeText (content : String) : TextSpelling content (writeText content) := by
  refine .quoted ?_
  induction content.toList with
  | nil => exact .nil
  | cons char rest ih => exact .cons (charSpelling_escapedChar char) ih

namespace Token

variable {tokens : List Token} {done : List Char}

theorem noSurrogate (char : Char) :
    char.toNat < 0xd800 ∨ 0xdfff < char.toNat ∧ char.toNat < 0x110000 := char.valid

theorem finishUnit_of_char (char : Char) :
    Scan.finishUnit tokens done none char.toNat = some ⟨tokens, .string (char :: done)⟩ := by
  have apart := noSurrogate char
  have notLow : ¬(0xdc00 ≤ char.toNat ∧ char.toNat < 0xe000) := by omega
  have notHigh : ¬(0xd800 ≤ char.toNat ∧ char.toNat < 0xdc00) := by omega
  simp [Scan.finishUnit, notLow, notHigh, Char.ofNat_toNat]

theorem finishUnit_of_high {unit : Nat} (low : 0xd800 ≤ unit) (high : unit < 0xdc00) :
    Scan.finishUnit tokens done none unit = some ⟨tokens, .secondSlash done unit⟩ := by
  have notLow : ¬0xdc00 ≤ unit := Nat.not_le_of_lt high
  simp [Scan.finishUnit, notLow, low, high]

/-- Two surrogates make up one character. -/
theorem finishUnit_of_pair {char : Char} (beyond : 0x10000 ≤ char.toNat) :
    Scan.finishUnit tokens done (some (0xd800 + (char.toNat - 0x10000) / 0x400))
        (0xdc00 + (char.toNat - 0x10000) % 0x400) =
      some ⟨tokens, .string (char :: done)⟩ := by
  have whole : 0x10000 + (0xd800 + (char.toNat - 0x10000) / 0x400 - 0xd800) * 0x400 +
      (0xdc00 + (char.toNat - 0x10000) % 0x400 - 0xdc00) = char.toNat := by omega
  have isLow : 0xdc00 + (char.toNat - 0x10000) % 0x400 < 0xe000 := by omega
  simp only [Scan.finishUnit, whole, Char.ofNat_toNat]
  simp [isLow]

theorem foldlM_unit {high? : Option Nat} {digits : List Char} {unit : Nat}
    (writes : WritesUnit digits unit) :
    digits.foldlM Scan.step ⟨tokens, .codeUnit done high? []⟩ =
      Scan.finishUnit tokens done high? unit := by
  obtain ⟨four, value⟩ := writes
  match digits, four with
  | [first, second, third, fourth], _ =>
      have complete : Scan.step ⟨tokens, .codeUnit done high? [first, second, third]⟩ fourth =
          Scan.finishUnit tokens done high? unit := by
        simp [Scan.step, value]
      calc [first, second, third, fourth].foldlM Scan.step ⟨tokens, .codeUnit done high? []⟩
          = (Scan.step ⟨tokens, .codeUnit done high? [first, second, third]⟩ fourth).bind some :=
            rfl
        _ = Scan.finishUnit tokens done high? unit := by rw [complete, Option.bind_fun_some]

theorem lookup_shortEscapes :
    ∀ entry ∈ shortEscapes, entry.1 ≠ 'u' ∧ shortEscapes.lookup entry.1 = some entry.2 := by
  decide

/-- What spells a character inside of a string is read as this character. -/
theorem foldlM_char {char : Char} {chars : List Char} (spelled : CharSpelling char chars) :
    chars.foldlM Scan.step ⟨tokens, .string done⟩ = some ⟨tokens, .string (char :: done)⟩ := by
  cases spelled with
  | plain noQuote noSlash printed =>
      have taken : Scan.step ⟨tokens, .string done⟩ char =
          some ⟨tokens, .string (char :: done)⟩ := by
        simp only [Scan.step]
        rw [if_neg noQuote, if_neg noSlash, if_neg printed]
      rw [List.foldlM_cons, taken]
      rfl
  | @short letter _ listed =>
      obtain ⟨notUnit, found⟩ := lookup_shortEscapes _ listed
      have taken : Scan.step ⟨tokens, .escape done⟩ letter =
          some ⟨tokens, .string (char :: done)⟩ := by
        simp only [Scan.step]
        rw [if_neg notUnit, found, Option.map_some]
      have opened : ['\\', letter].foldlM Scan.step ⟨tokens, .string done⟩ =
          (Scan.step ⟨tokens, .escape done⟩ letter).bind some := rfl
      rw [opened, taken, Option.bind_some]
  | @unit _ digits writes =>
      have opened : ('\\' :: 'u' :: digits).foldlM Scan.step ⟨tokens, .string done⟩ =
          digits.foldlM Scan.step ⟨tokens, .codeUnit done none []⟩ := rfl
      rw [opened, foldlM_unit writes, finishUnit_of_char]
  | @pair _ high low beyond writesHigh writesLow =>
      have first : high.foldlM Scan.step ⟨tokens, .codeUnit done none []⟩ =
          some ⟨tokens, .secondSlash done (0xd800 + (char.toNat - 0x10000) / 0x400)⟩ := by
        have atMost := noSurrogate char
        rw [foldlM_unit writesHigh, finishUnit_of_high (Nat.le_add_right _ _) (by omega)]
      have second : low.foldlM Scan.step
            ⟨tokens, .codeUnit done (some (0xd800 + (char.toNat - 0x10000) / 0x400)) []⟩ =
          some ⟨tokens, .string (char :: done)⟩ := by
        rw [foldlM_unit writesLow, finishUnit_of_pair beyond]
      calc ('\\' :: 'u' :: high ++ '\\' :: 'u' :: low).foldlM Scan.step ⟨tokens, .string done⟩
          = (high ++ '\\' :: 'u' :: low).foldlM Scan.step ⟨tokens, .codeUnit done none []⟩ := rfl
        _ = some ⟨tokens, .string (char :: done)⟩ := by
          rw [List.foldlM_append, first]
          exact second

theorem foldlM_chars {content chars : List Char} (spelled : CharsSpelling content chars) :
    chars.foldlM Scan.step ⟨tokens, .string done⟩ =
      some ⟨tokens, .string (content.reverse ++ done)⟩ := by
  induction spelled generalizing done with
  | nil => rfl
  | cons here further ih =>
      rw [List.foldlM_append, foldlM_char here, Option.bind_eq_bind, Option.bind_some, ih,
        List.reverse_cons, List.append_assoc]
      rfl

end Token

end Json

end Cascade
