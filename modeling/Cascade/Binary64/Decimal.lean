import Cascade.Binary64.Basic
set_option autoImplicit false

/-! The text of a floating-point number: its shortest decimal, set in a layout. The decimal is the
shortest that reads back as the number, and of the shortest ones the nearest.

The decimals that read back form an interval around the number, with both ends or neither. For
one, two, … seventeen digits the two neighbours of the number on the grid of decimals with as
many digits are tested against that interval; the first grid with a hit decides. -/

namespace Cascade.Binary64

structure Decimal where
  coefficient : Nat
  exponent : Int
deriving DecidableEq

inductive Tie where
  | up
  | even
deriving DecidableEq

/-- The interval of reals that round to a number, and the number itself, over one common
denominator. The closest neighbour below a power of two is half as far as the one above. -/
structure Interval where
  low : Nat
  value : Nat
  high : Nat
  den : Nat
  closed : Bool

def interval (number : Binary64) : Interval :=
  let gap := if number.significand = hiddenUnit ∧ number.position ≠ 0 then 1 else 2
  let unit := powerOfTwo number.position
  { low := (4 * number.significand - gap) * unit
    value := 4 * number.significand * unit
    high := (4 * number.significand + 2) * unit
    den := powerOfTwo 1076
    closed := number.significand % 2 = 0 }

/-- Whether `coefficient * step / grid` lies in the interval, the ends taken times `grid`. -/
def Interval.holds (range : Interval) (coefficient step grid : Nat) : Bool :=
  let point := coefficient * step
  if range.closed then range.low * grid ≤ point && point ≤ range.high * grid
  else range.low * grid < point && point < range.high * grid

def leadingExponent (num den : Nat) : Int :=
  let estimate : Int := (Nat.toDigits 10 num).length - (Nat.toDigits 10 den).length
  if den * powerOfTen estimate.toNat ≤ num * powerOfTen (-estimate).toNat then estimate
  else estimate - 1

/-- The nearer hit of the two neighbours on the grid of multiples of `10 ^ exponent`. -/
def neighbour? (tie : Tie) (range : Interval) (exponent : Int) : Option Nat :=
  let grid := powerOfTen (-exponent).toNat
  let step := range.den * powerOfTen exponent.toNat
  let below := range.value * grid / step
  let excess := 2 * (range.value * grid % step)
  let upper := if step < excess then true
    else if excess < step then false
    else match tie with
      | .up => true
      | .even => below % 2 = 1
  let hits (coefficient : Nat) : Bool := range.holds coefficient step grid
  match hits below, hits (below + 1) with
  | true, true => some (if upper then below + 1 else below)
  | true, false => some below
  | false, true => some (below + 1)
  | false, false => none

/-- The first hit on the grids with `digits`, `digits + 1`, … digits, `count` grids in all. -/
def firstHit? (tie : Tie) (range : Interval) (leading : Int) (digits : Nat) :
    (count : Nat) → Option Decimal
  | 0 => none
  | count + 1 =>
      let exponent := leading - digits + 1
      match neighbour? tie range exponent with
      | some coefficient => some ⟨coefficient, exponent⟩
      | none => firstHit? tie range leading (digits + 1) count

/-- The shortest decimal of a positive finite number; seventeen digits always suffice. -/
def shortest (tie : Tie) (number : Binary64) : Decimal :=
  let range := number.interval
  (firstHit? tie range (leadingExponent range.value range.den) 1 17).getD ⟨0, 0⟩

/-! ### Layouts -/

/-- How a decimal is set. Numbers whose leading digit has an exponent that `positional` accepts
are written without an exponent; `whole` follows a whole number written so. -/
structure Layout where
  tie : Tie
  positional : Int → Bool
  whole : List Char

def Layout.setPositional (layout : Layout) (digits : List Char) (exponent : Int) : List Char :=
  if 0 ≤ exponent then digits ++ List.replicate exponent.toNat '0' ++ layout.whole
  else
    let places := (-exponent).toNat
    if places < digits.length then
      let front := digits.length - places
      digits.take front ++ '.' :: digits.drop front
    else '0' :: '.' :: List.replicate (places - digits.length) '0' ++ digits

/-- One digit before the point, no point without a digit after it, a signed exponent. -/
def setScientific (digits : List Char) (leading : Int) : List Char :=
  let body := match digits with
    | [] => []
    | [digit] => [digit]
    | digit :: rest => digit :: '.' :: rest
  let sign := if leading < 0 then '-' else '+'
  body ++ 'e' :: sign :: Nat.toDigits 10 leading.natAbs

def trimmedDigits (coefficient : Nat) : List Char × Nat :=
  let reversed := (Nat.toDigits 10 coefficient).reverse
  ((reversed.dropWhile (· = '0')).reverse, (reversed.takeWhile (· = '0')).length)

def Layout.setMagnitude (layout : Layout) (number : Binary64) : List Char :=
  if number.isZero then '0' :: layout.whole
  else
    let decimal := shortest layout.tie number
    let (digits, zeros) := trimmedDigits decimal.coefficient
    let exponent := decimal.exponent + zeros
    let leading := exponent + digits.length - 1
    if layout.positional leading then layout.setPositional digits exponent
    else setScientific digits leading

def Layout.setFinite (layout : Layout) (number : Binary64) : List Char :=
  if number.negative then '-' :: layout.setMagnitude number else layout.setMagnitude number

/-- Plain decimal: never an exponent, and whole numbers without a point. -/
def plainLayout : Layout := ⟨.up, fun _ => true, []⟩

def display (number : Binary64) : String :=
  if number.isNaN then "NaN"
  else if number.isInfinite then if number.negative then "-inf" else "inf"
  else String.ofList (plainLayout.setFinite number)

end Cascade.Binary64
