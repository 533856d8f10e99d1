import Cascade.Binary64.Basic
import Cascade.OrderedMap.Basic
import Cascade.Text.Digits
set_option autoImplicit false

/-! TOML documents: tables of named values, in the order of the document. Values that are written
without quotes are truth values, integers, floating-point numbers, dates and times; each is read
from a word that holds it and nothing else. -/

namespace Cascade

inductive Toml where
  | text (text : String)
  | integer (number : Int64)
  | float (number : Binary64)
  | bool (truth : Bool)
  /-- A date, a time, or both, in normal form. -/
  | moment (text : String)
  | array (items : List Toml)
  | table (entries : OrderedMap String Toml)
deriving Inhabited

namespace Toml

abbrev Table := OrderedMap String Toml

/-! ### Dates and times

In normal form there is a `T` between date and time, there are no zeros at the end of a fraction of
a second, which has nine digits at most, and offsets are `Z` or have a sign, hours and minutes. -/

structure Date where
  year : Nat
  month : Nat
  day : Nat

structure Time where
  hour : Nat
  minute : Nat
  second : Nat
  /-- The digits of the fraction that are kept. -/
  fraction : List Char

inductive Offset where
  | utc
  | minutes (count : Int)

inductive Moment where
  | date (date : Date)
  | time (time : Time)
  | both (date : Date) (time : Time) (offset? : Option Offset)

def fixed? (width : Nat) (text : List Char) : Option (Nat × List Char) :=
  let digits := text.take width
  if digits.length = width && digits.all Char.isDigit then
    (Text.numberOf? 10 digits).map fun number => (number, text.drop width)
  else none

def expect? (char : Char) : List Char → Option (List Char)
  | first :: rest => if first = char then some rest else none
  | [] => none

def Date.isLeap (year : Nat) : Bool :=
  year % 4 = 0 && (year % 100 ≠ 0 || year % 400 = 0)

def Date.daysIn (year month : Nat) : Nat :=
  if month = 2 then if isLeap year then 29 else 28
  else if month ∈ [4, 6, 9, 11] then 30
  else 31

def Date.read? (text : List Char) : Option (Date × List Char) := do
  let (year, rest) ← fixed? 4 text
  let rest ← expect? '-' rest
  let (month, rest) ← fixed? 2 rest
  let rest ← expect? '-' rest
  let (day, rest) ← fixed? 2 rest
  if 1 ≤ month ∧ month ≤ 12 ∧ 1 ≤ day ∧ day ≤ daysIn year month then
    some (⟨year, month, day⟩, rest)
  else none

def Time.readFraction? : List Char → Option (List Char × List Char)
  | '.' :: rest =>
      let digits := rest.takeWhile Char.isDigit
      if digits.isEmpty then none else some (digits.take 9, rest.dropWhile Char.isDigit)
  | rest => some ([], rest)

/-- A time of day; the last minute before a leap may have a second number sixty. -/
def Time.read? (text : List Char) : Option (Time × List Char) := do
  let (hour, rest) ← fixed? 2 text
  let rest ← expect? ':' rest
  let (minute, rest) ← fixed? 2 rest
  let rest ← expect? ':' rest
  let (second, rest) ← fixed? 2 rest
  let (fraction, rest) ← readFraction? rest
  if hour ≤ 23 ∧ minute ≤ 59 ∧ second ≤ 60 then some (⟨hour, minute, second, fraction⟩, rest)
  else none

def Offset.read? (text : List Char) : Option (Option Offset) :=
  let shifted (sign : Int) (text : List Char) : Option (Option Offset) := do
    let (hour, rest) ← fixed? 2 text
    let rest ← expect? ':' rest
    let (minute, rest) ← fixed? 2 rest
    if hour ≤ 23 ∧ minute ≤ 59 ∧ rest.isEmpty then
      some (some (.minutes (sign * (hour * 60 + minute))))
    else none
  match text with
  | [] => some none
  | ['Z'] => some (some .utc)
  | ['z'] => some (some .utc)
  | '+' :: rest => shifted 1 rest
  | '-' :: rest => shifted (-1) rest
  | _ => none

/-- Reads a text that is a date, a time, or a date with a time behind `T` or a space. -/
def Moment.ofText? (text : List Char) : Option Moment :=
  match Date.read? text with
  | some (day, []) => some (.date day)
  | some (day, between :: rest) =>
      if between = 'T' ∨ between = 't' ∨ between = ' ' then do
        let (clock, rest) ← Time.read? rest
        let offset? ← Offset.read? rest
        return .both day clock offset?
      else none
  | none =>
      match Time.read? text with
      | some (clock, []) => some (.time clock)
      | _ => none

def padded (width number : Nat) : List Char :=
  let digits := Nat.toDigits 10 number
  List.replicate (width - digits.length) '0' ++ digits

def Date.toText (date : Date) : List Char :=
  padded 4 date.year ++ '-' :: padded 2 date.month ++ '-' :: padded 2 date.day

def Time.toText (time : Time) : List Char :=
  let fraction := (time.fraction.reverse.dropWhile (· = '0')).reverse
  padded 2 time.hour ++ ':' :: padded 2 time.minute ++ ':' :: padded 2 time.second ++
    if fraction.isEmpty then [] else '.' :: fraction

def Offset.toText : Offset → List Char
  | .utc => ['Z']
  | .minutes count =>
      (if count < 0 then '-' else '+') ::
        padded 2 (count.natAbs / 60) ++ ':' :: padded 2 (count.natAbs % 60)

def Moment.toText : Moment → List Char
  | .date day => day.toText
  | .time clock => clock.toText
  | .both day clock offset? =>
      day.toText ++ 'T' :: clock.toText ++ (offset?.map Offset.toText).getD []

/-! ### Words -/

namespace Scalar

def signed : List Char → Bool × List Char
  | '-' :: rest => (true, rest)
  | '+' :: rest => (false, rest)
  | rest => (false, rest)

/-- Digits of a base without the underscores, each of which stands between two digits. -/
def spacedDigits? (base : Nat) : List Char → Option (List Char)
  | [] => none
  | [digit] => (digitOf digit).map fun digit => [digit]
  | digit :: '_' :: rest => do return (← digitOf digit) :: (← spacedDigits? base rest)
  | digit :: rest => do return (← digitOf digit) :: (← spacedDigits? base rest)
where
  digitOf (char : Char) : Option Char := (Text.digitValue? base char).map fun _ => char

/-- Decimal digits that have no zero in front of another digit. -/
def wholeDigits? (text : List Char) : Option (List Char) :=
  (spacedDigits? 10 text).filter fun digits => digits.head? ≠ some '0' ∨ digits.length = 1

def integer? (negative : Bool) (base : Nat) (digits : List Char) : Option Toml := do
  let size ← Text.numberOf? base digits
  let number : Int := if negative then -size else size
  if Int64.minValue.toInt ≤ number ∧ number ≤ Int64.maxValue.toInt then
    some (.integer (Int64.ofInt number))
  else none

/-- Integers with a base mark have no sign. -/
def ofIntegerWord? : List Char → Option Toml
  | '0' :: 'x' :: rest => do integer? false 16 (← spacedDigits? 16 rest)
  | '0' :: 'o' :: rest => do integer? false 8 (← spacedDigits? 8 rest)
  | '0' :: 'b' :: rest => do integer? false 2 (← spacedDigits? 2 rest)
  | word =>
      let (negative, digits) := signed word
      do integer? negative 10 (← wholeDigits? digits)

def exponent? (text : List Char) : Option Int := do
  let (negative, digits) := signed text
  let size ← Text.numberOf? 10 (← spacedDigits? 10 digits)
  return if negative then -size else size

def splitExponent (text : List Char) : List Char × Option (List Char) :=
  let isMark (char : Char) : Bool := char = 'e' || char = 'E'
  match text.dropWhile (!isMark ·) with
  | [] => (text, none)
  | _ :: rest => (text.takeWhile (!isMark ·), some rest)

/-- The nearest floating-point number. A positive number that is too great is refused, a
negative one becomes the infinity. -/
def decimal? (negative : Bool) (text : List Char) : Option Toml := do
  let (mantissa, exponentText?) := splitExponent text
  let whole ← wholeDigits? (mantissa.takeWhile (· ≠ '.'))
  let (fraction, exponent) ← match mantissa.dropWhile (· ≠ '.'), exponentText? with
    | _ :: fraction, none => do pure (← spacedDigits? 10 fraction, (0 : Int))
    | _ :: fraction, some text => do pure (← spacedDigits? 10 fraction, ← exponent? text)
    | [], some text => do pure ([], ← exponent? text)
    | [], none => none
  let coefficient ← Text.numberOf? 10 (whole ++ fraction)
  let number := Binary64.ofDecimal negative coefficient (exponent - fraction.length)
  if number = Binary64.infinity false then none else some (.float number)

def ofFloatWord? (word : List Char) : Option Toml :=
  let (negative, unsigned) := signed word
  if unsigned = "inf".toList then some (.float (Binary64.infinity negative))
  else if unsigned = "nan".toList then some (.float Binary64.nan)
  else decimal? negative unsigned

def ofWord? (word : List Char) : Option Toml :=
  if word = "true".toList then some (.bool true)
  else if word = "false".toList then some (.bool false)
  else
    match Moment.ofText? word with
    | some found => some (.moment (String.ofList found.toText))
    | none => (ofFloatWord? word).orElse fun _ => ofIntegerWord? word

end Scalar

end Toml

end Cascade
