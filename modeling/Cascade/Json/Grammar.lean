import Cascade.Document
import Cascade.Text.Digits
set_option autoImplicit false

/-! The grammar of compact JSON: which characters spell a document, with no white space between the
tokens. Inside of a string there are several ways to spell a character. Floating-point numbers have
no spelling here. -/

namespace Cascade.Json

/-! ### Strings -/

/-- The letters that may follow a backslash, each with the character that is meant. -/
def shortEscapes : List (Char × Char) :=
  [('"', '"'), ('\\', '\\'), ('/', '/'), ('b', '\x08'), ('f', '\x0c'), ('n', '\n'), ('r', '\r'),
    ('t', '\t')]

/-- Four hexadecimal digits, in lower or upper case, write a code unit of UTF-16. -/
structure WritesUnit (digits : List Char) (unit : Nat) : Prop where
  four : digits.length = 4
  value : Text.numberOf? 16 digits = some unit

inductive CharSpelling : Char → List Char → Prop
  | plain {char : Char} (noQuote : char ≠ '"') (noSlash : char ≠ '\\')
      (printed : ¬char.toNat < 0x20) : CharSpelling char [char]
  | short {letter char : Char} (listed : (letter, char) ∈ shortEscapes) :
      CharSpelling char ['\\', letter]
  | unit {char : Char} {digits : List Char} (writes : WritesUnit digits char.toNat) :
      CharSpelling char ('\\' :: 'u' :: digits)
  /-- A high and a low surrogate. -/
  | pair {char : Char} {high low : List Char} (beyond : 0x10000 ≤ char.toNat)
      (writesHigh : WritesUnit high (0xd800 + (char.toNat - 0x10000) / 0x400))
      (writesLow : WritesUnit low (0xdc00 + (char.toNat - 0x10000) % 0x400)) :
      CharSpelling char ('\\' :: 'u' :: high ++ '\\' :: 'u' :: low)

inductive CharsSpelling : List Char → List Char → Prop
  | nil : CharsSpelling [] []
  | cons {char : Char} {rest first others : List Char} (here : CharSpelling char first)
      (further : CharsSpelling rest others) : CharsSpelling (char :: rest) (first ++ others)

/-- A string stands in quotes. -/
inductive TextSpelling : String → List Char → Prop
  | quoted {content : String} {inner : List Char} (spelled : CharsSpelling content.toList inner) :
      TextSpelling content ('"' :: inner ++ ['"'])

/-! ### Documents -/

mutual

inductive Spelling : Document → List Char → Prop
  | null : Spelling .null "null".toList
  | true : Spelling (.bool true) "true".toList
  | false : Spelling (.bool false) "false".toList
  | integer (number : Int) : Spelling (.integer number) (Text.decimal number)
  | text {content : String} {chars : List Char} (spelled : TextSpelling content chars) :
      Spelling (.text content) chars
  | array {items : List Document} {inner : List Char} (spelled : ItemsSpelling items inner) :
      Spelling (.array items) ('[' :: (inner ++ [']']))
  | object {members : List (String × Document)} {inner : List Char}
      (spelled : MembersSpelling members inner) :
      Spelling (.object members) ('\x7b' :: (inner ++ ['\x7d']))

/-- Commas stand between the items. -/
inductive ItemsSpelling : List Document → List Char → Prop
  | nil : ItemsSpelling [] []
  | last {item : Document} {chars : List Char} (here : Spelling item chars) :
      ItemsSpelling [item] chars
  | cons {item next : Document} {rest : List Document} {chars others : List Char}
      (here : Spelling item chars) (further : ItemsSpelling (next :: rest) others) :
      ItemsSpelling (item :: next :: rest) (chars ++ ',' :: others)

/-- A colon stands behind every key, and commas between the members. -/
inductive MembersSpelling : List (String × Document) → List Char → Prop
  | nil : MembersSpelling [] []
  | last {key : String} {value : Document} {keyChars chars : List Char}
      (named : TextSpelling key keyChars) (here : Spelling value chars) :
      MembersSpelling [(key, value)] (keyChars ++ ':' :: chars)
  | cons {key : String} {value : Document} {next : String × Document}
      {rest : List (String × Document)} {keyChars chars others : List Char}
      (named : TextSpelling key keyChars) (here : Spelling value chars)
      (further : MembersSpelling (next :: rest) others) :
      MembersSpelling ((key, value) :: next :: rest) (keyChars ++ ':' :: chars ++ ',' :: others)

end

/-- The document nests at most so deep, and its numbers are integers of 64 bits, with a sign or
without one. -/
inductive Plain : (depth : Nat) → Document → Prop
  | null (depth : Nat) : Plain depth .null
  | bool (depth : Nat) (truth : Bool) : Plain depth (.bool truth)
  | integer (depth : Nat) {number : Int} (low : -0x8000000000000000 ≤ number)
      (high : number < 0x10000000000000000) : Plain depth (.integer number)
  | text (depth : Nat) (content : String) : Plain depth (.text content)
  | array {depth : Nat} {items : List Document} (each : ∀ item ∈ items, Plain depth item) :
      Plain (depth + 1) (.array items)
  | object {depth : Nat} {members : List (String × Document)}
      (each : ∀ member ∈ members, Plain depth member.2) : Plain (depth + 1) (.object members)

/-! ### Formats -/

/-- The writer puts out compact JSON. -/
def WritesCompactly (format : Format) : Prop :=
  ∀ (depth : Nat) (document : Document), Plain depth document →
    ∃ text, format.write document = .ok text ∧ Spelling document text.toList

/-- The reader takes in JSON that nests at most 127 deep, and finds what it spells: the members of
an object one by one, in the order of the text. -/
def ReadsInOrder (format : Format) : Prop :=
  ∀ (document : Document) (text : String), Plain 127 document →
    Spelling document text.toList → format.read text = .ok document

end Cascade.Json
