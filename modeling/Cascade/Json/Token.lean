import Cascade.Json.Grammar
set_option autoImplicit false

/-! Tokens of JSON text. One pass over the characters; a word is a maximal run of the characters
that literals are made of, and is a literal as a whole or an error.

A number literal is read into a significand below `2 ^ 64` and a power of ten. Digits that the
significand cannot take are dropped: before the point each of them still counts one power of
ten, after it none. The significand is rounded to a floating-point number and then multiplied
or divided by powers of ten that are floating-point numbers too, so a result may lie one unit
beside the nearest number. -/

namespace Cascade.Json

/-! ### Number literals -/

structure Literal where
  negative : Bool
  whole : List Char
  fraction : Option (List Char)
  exponent : Option Int

namespace Literal

def splitDigits (text : List Char) : List Char × List Char :=
  (text.takeWhile Char.isDigit, text.dropWhile Char.isDigit)

def exponentOf? (text : List Char) : Option Int :=
  let (negative, digits) := match text with
    | '-' :: rest => (true, rest)
    | '+' :: rest => (false, rest)
    | rest => (false, rest)
  if digits.isEmpty || !digits.all Char.isDigit then none
  else (Text.numberOf? 10 digits).map fun size => if negative then -(size : Int) else size

/-- A literal has at least one digit, no zero in front of another digit, and a digit after
every point. -/
def ofText? (text : List Char) : Option Literal := do
  let (negative, unsigned) := match text with
    | '-' :: rest => (true, rest)
    | rest => (false, rest)
  let (whole, rest) := splitDigits unsigned
  if whole.isEmpty || (whole.head? = some '0' && whole.length ≠ 1) then none
  let (fraction, rest) ← match rest with
    | '.' :: rest =>
        let (digits, rest) := splitDigits rest
        if digits.isEmpty then none else some (some digits, rest)
    | rest => some (none, rest)
  let exponent ← match rest with
    | [] => some none
    | mark :: rest => if mark = 'e' ∨ mark = 'E' then (exponentOf? rest).map some else none
  return { negative, whole, fraction, exponent }

/-- Significands are words of 64 bits. -/
def significandBound : Nat := 0x10000000000000000

/-- Appends digits to a significand while it stays below the bound; answers the digits left. -/
def absorb (significand : Nat) : List Char → Nat × List Char
  | [] => (significand, [])
  | digit :: rest =>
      let next := significand * 10 + (digit.toNat - '0'.toNat)
      if next < significandBound then absorb next rest else (significand, digit :: rest)

/-- `number * 10 ^ exponent` by rounded steps, each power at most `10 ^ 308`; `none` when it
overflows. At most `steps` divisions by `10 ^ 308` come before the last step. -/
def scaled? (number : Binary64) (exponent : Int) : (steps : Nat) → Option Binary64
  | 0 => some number
  | steps + 1 =>
      let power (size : Nat) := Binary64.ofDecimal false 1 size
      if exponent.natAbs ≤ 308 then
        if 0 ≤ exponent then
          let product := number.mulAbs (power exponent.natAbs)
          if product.isInfinite then none else some product
        else some (number.divAbs (power exponent.natAbs))
      else if number.isZero then some number
      else if 0 ≤ exponent then none
      else scaled? (number.divAbs (power 308)) (exponent + 308) steps

def float? (negative : Bool) (significand : Nat) (exponent : Int) : Option Document :=
  (scaled? (Binary64.ofNat significand) exponent (exponent.natAbs / 308 + 1)).map fun number =>
    .float (number.withSign negative)

/-- The number of a literal, unless it overflows. The literal `-0` keeps its sign, so it is a
floating-point number, as is an integer that 64 bits do not hold. -/
def number? (literal : Literal) : Option Document :=
  let (significand, left) := absorb 0 literal.whole
  match literal.fraction, literal.exponent with
  | none, none =>
      if left.isEmpty then
        if !literal.negative then some (.integer significand)
        else if significand = 0 ∨ significandBound / 2 < significand then float? true significand 0
        else some (.integer (-significand))
      else float? literal.negative significand left.length
  | fraction, exponent =>
      let digits := fraction.getD []
      let (significand, ignored) := absorb significand digits
      float? literal.negative significand
        (exponent.getD 0 + left.length - (digits.length - ignored.length))

end Literal

/-! ### Tokens -/

inductive Token where
  | openArray
  | closeArray
  | openObject
  | closeObject
  | comma
  | colon
  | text (text : String)
  | scalar (value : Document)

def isSpace (char : Char) : Bool :=
  char = ' ' || char = '\t' || char = '\n' || char = '\r'

def isWordChar (char : Char) : Bool :=
  char.isAlphanum || char = '-' || char = '+' || char = '.'

def mark? : Char → Option Token
  | '[' => some .openArray
  | ']' => some .closeArray
  | '\x7b' => some .openObject
  | '\x7d' => some .closeObject
  | ',' => some .comma
  | ':' => some .colon
  | _ => none

def wordToken? (word : List Char) : Option Token :=
  if word = "null".toList then some (.scalar .null)
  else if word = "true".toList then some (.scalar (.bool true))
  else if word = "false".toList then some (.scalar (.bool false))
  else do
    let literal ← Literal.ofText? word
    let number ← literal.number?
    return .scalar number

namespace Token

/-- Where the scan stands: between tokens, in a word, or in a string. Characters of an
unfinished word or string are kept in reverse. A code unit is under way with its digits so far;
`high` is the unit that a low surrogate has to complete. -/
inductive Place where
  | between
  | word (done : List Char)
  | string (done : List Char)
  | escape (done : List Char)
  | codeUnit (done : List Char) (high : Option Nat) (digits : List Char)
  | secondSlash (done : List Char) (high : Nat)
  | secondLetter (done : List Char) (high : Nat)

structure Scan where
  tokens : List Token
  place : Place

def Scan.start : Scan := ⟨[], .between⟩

def Scan.begin (tokens : List Token) (char : Char) : Option Scan :=
  if isSpace char then some ⟨tokens, .between⟩
  else if char = '"' then some ⟨tokens, .string []⟩
  else if isWordChar char then some ⟨tokens, .word [char]⟩
  else (mark? char).map fun token => ⟨token :: tokens, .between⟩

/-- The four digits of a code unit are complete. Surrogates count only as a pair, high first. -/
def Scan.finishUnit (tokens : List Token) (done : List Char) (high : Option Nat)
    (unit : Nat) : Option Scan :=
  let isHigh := 0xd800 ≤ unit && unit < 0xdc00
  let isLow := 0xdc00 ≤ unit && unit < 0xe000
  match high with
  | none =>
      if isLow then none
      else if isHigh then some ⟨tokens, .secondSlash done unit⟩
      else some ⟨tokens, .string (Char.ofNat unit :: done)⟩
  | some first =>
      if isLow then
        let char := Char.ofNat (0x10000 + (first - 0xd800) * 0x400 + (unit - 0xdc00))
        some ⟨tokens, .string (char :: done)⟩
      else none

/-- Takes in one character; `none` when no text may go on with it. -/
def Scan.step (scan : Scan) (char : Char) : Option Scan :=
  let tokens := scan.tokens
  match scan.place with
  | .between => begin tokens char
  | .word done =>
      if isWordChar char then some ⟨tokens, .word (char :: done)⟩
      else do
        let token ← wordToken? done.reverse
        begin (token :: tokens) char
  | .string done =>
      if char = '"' then some ⟨.text (String.ofList done.reverse) :: tokens, .between⟩
      else if char = '\\' then some ⟨tokens, .escape done⟩
      else if char.toNat < 0x20 then none
      else some ⟨tokens, .string (char :: done)⟩
  | .escape done =>
      if char = 'u' then some ⟨tokens, .codeUnit done none []⟩
      else (shortEscapes.lookup char).map fun meant => ⟨tokens, .string (meant :: done)⟩
  | .codeUnit done high digits =>
      let digits := digits ++ [char]
      if digits.length < 4 then some ⟨tokens, .codeUnit done high digits⟩
      else do
        let unit ← Text.numberOf? 16 digits
        finishUnit tokens done high unit
  | .secondSlash done high =>
      if char = '\\' then some ⟨tokens, .secondLetter done high⟩ else none
  | .secondLetter done high =>
      if char = 'u' then some ⟨tokens, .codeUnit done (some high) []⟩ else none

def Scan.finish (scan : Scan) : Option (List Token) :=
  match scan.place with
  | .between => some scan.tokens.reverse
  | .word done => (wordToken? done.reverse).map fun token => (token :: scan.tokens).reverse
  | _ => none

/-- The tokens of a text, or `none` when some part of it is no token. -/
def ofText? (text : List Char) : Option (List Token) := do
  let scan ← text.foldlM Scan.step Scan.start
  scan.finish

end Token

end Cascade.Json
