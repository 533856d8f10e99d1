set_option autoImplicit false

/-! Binary floating-point numbers of 64 bits: one sign bit, eleven exponent bits and
fifty-two fraction bits. A number is its word; the fields are read off by division. Exact ratios are
rounded to the nearest number, halves to the even significand. -/

namespace Cascade

structure Binary64 where
  bits : UInt64
deriving DecidableEq, Inhabited

namespace Binary64

def powerOfTwo (exponent : Nat) : Nat := Nat.pow 2 exponent

def powerOfTen (exponent : Nat) : Nat := Nat.pow 10 exponent

def signUnit : Nat := powerOfTwo 63

/-- The place of the lowest exponent bit, and of the leading bit of a normal significand. -/
def hiddenUnit : Nat := powerOfTwo 52

def infiniteMagnitude : Nat := 2047 * hiddenUnit

def word (number : Binary64) : Nat := number.bits.toNat

def negative (number : Binary64) : Bool := signUnit ≤ number.word

/-- Exponent and fraction together. Among numbers that are not NaN a greater one stands for a
greater absolute value. -/
def magnitude (number : Binary64) : Nat := number.word % signUnit

def exponent (number : Binary64) : Nat := number.magnitude / hiddenUnit

def fraction (number : Binary64) : Nat := number.magnitude % hiddenUnit

def isNaN (number : Binary64) : Bool := infiniteMagnitude < number.magnitude

def isInfinite (number : Binary64) : Bool := number.magnitude = infiniteMagnitude

def isFinite (number : Binary64) : Bool := number.magnitude < infiniteMagnitude

def isZero (number : Binary64) : Bool := number.magnitude = 0

/-- The only NaN in use. -/
def nan : Binary64 := ⟨0x7ff8000000000000⟩

/-- The number that a word writes; every word of a NaN writes `nan`. -/
def ofBits (bits : UInt64) : Binary64 :=
  if isNaN ⟨bits⟩ then nan else ⟨bits⟩

def ofMagnitude (negative : Bool) (magnitude : Nat) : Binary64 :=
  ⟨UInt64.ofNat (if negative then signUnit + magnitude else magnitude)⟩

def zero (negative : Bool) : Binary64 := ofMagnitude negative 0

def infinity (negative : Bool) : Binary64 := ofMagnitude negative infiniteMagnitude

/-- A finite number is, up to its sign, `significand * 2 ^ (position - 1074)`. -/
def significand (number : Binary64) : Nat :=
  if number.exponent = 0 then number.fraction else number.fraction + hiddenUnit

def position (number : Binary64) : Nat := number.exponent - 1

/-- Equality of values: a NaN equals nothing, and the two zeros are equal. -/
def same (left right : Binary64) : Bool :=
  !left.isNaN && !right.isNaN && (left.bits == right.bits || left.isZero && right.isZero)

instance : BEq Binary64 := ⟨same⟩

/-! ### Rounding -/

/-- A nonnegative ratio. Denominators of the ratios below are positive. -/
structure Ratio where
  num : Nat
  den : Nat

namespace Ratio

def mul (left right : Ratio) : Ratio := ⟨left.num * right.num, left.den * right.den⟩

def div (left right : Ratio) : Ratio := ⟨left.num * right.den, left.den * right.num⟩

/-- The whole number nearest to the ratio, of two the even one. -/
def nearest (ratio : Ratio) : Nat :=
  let below := ratio.num / ratio.den
  let excess := 2 * (ratio.num % ratio.den)
  if excess < ratio.den then below
  else if ratio.den < excess then below + 1
  else below + below % 2

end Ratio

def ratio (number : Binary64) : Ratio :=
  ⟨number.significand * powerOfTwo number.position, powerOfTwo 1074⟩

/-- The least position at which the ratio has a significand below `2 ^ 53`, before rounding. -/
def positionOf (ratio : Ratio) : Nat :=
  if ratio.num = 0 then 0 else
  let low := ratio.num.log2 + 1021 - ratio.den.log2
  if ratio.num * powerOfTwo 1074 / (ratio.den * powerOfTwo low) < 2 * hiddenUnit then low
  else low + 1

/-- The number nearest to the ratio; one that is too great is the infinity. The sum carries a
significand that was rounded up to `2 ^ 53` into the exponent. -/
def ofRatio (negative : Bool) (ratio : Ratio) : Binary64 :=
  let position := positionOf ratio
  let significand := Ratio.nearest ⟨ratio.num * powerOfTwo 1074, ratio.den * powerOfTwo position⟩
  ofMagnitude negative (min (position * hiddenUnit + significand) infiniteMagnitude)

def ofNat (number : Nat) : Binary64 := ofRatio false ⟨number, 1⟩

def ofInt (number : Int) : Binary64 := ofRatio (number < 0) ⟨number.natAbs, 1⟩

def mulAbs (left right : Binary64) : Binary64 := ofRatio false (left.ratio.mul right.ratio)

def divAbs (left right : Binary64) : Binary64 := ofRatio false (left.ratio.div right.ratio)

def withSign (negative : Bool) (number : Binary64) : Binary64 :=
  ofMagnitude negative number.magnitude

/-- The number nearest to `coefficient * 10 ^ exponent`. Whatever the exponent, powers of ten
beyond the reach of a coefficient of that many digits are cut off: they change no result. -/
def ofDecimal (negative : Bool) (coefficient : Nat) (exponent : Int) : Binary64 :=
  if coefficient = 0 then zero negative
  else if 310 < exponent then infinity negative
  else if exponent + coefficient.log2 < -400 then zero negative
  else ofRatio negative ⟨coefficient * powerOfTen exponent.toNat, powerOfTen (-exponent).toNat⟩

end Binary64

end Cascade
