import Cascade.Binary64.Decimal
import Cascade.Json.Token
set_option autoImplicit false

/-! The format of JSON texts. Tokens are taken in one by one, with a stack of the arrays and objects
that are open; what is written has no white space between tokens. -/

namespace Cascade.Json

/-! ### Reading -/

namespace Reader

/-- An open array with its items so far, or an open object with its members so far and the key
whose value is awaited; both lists in reverse. -/
inductive Frame where
  | items (done : List Document)
  | members (done : List (String × Document)) (key : String)

inductive State where
  | value (stack : List Frame)
  | firstItem (stack : List Frame)
  | firstKey (stack : List Frame)
  | key (done : List (String × Document)) (stack : List Frame)
  | colon (done : List (String × Document)) (key : String) (stack : List Frame)
  | complete (value : Document) (stack : List Frame)

/-- A token where a value begins. At most `depth` arrays and objects are open at a time. -/
def beginValue (depth : Nat) (stack : List Frame) : Token → Option State
  | .scalar value => some (.complete value stack)
  | .text content => some (.complete (.text content) stack)
  | .openArray => if stack.length < depth then some (.firstItem stack) else none
  | .openObject => if stack.length < depth then some (.firstKey stack) else none
  | _ => none

def afterValue (value : Document) : List Frame → Token → Option State
  | .items done :: stack, .comma => some (.value (.items (value :: done) :: stack))
  | .items done :: stack, .closeArray => some (.complete (.array (value :: done).reverse) stack)
  | .members done key :: stack, .comma => some (.key ((key, value) :: done) stack)
  | .members done key :: stack, .closeObject =>
      some (.complete (.object ((key, value) :: done).reverse) stack)
  | _, _ => none

def step (depth : Nat) : State → Token → Option State
  | .value stack, token => beginValue depth stack token
  | .firstItem stack, .closeArray => some (.complete (.array []) stack)
  | .firstItem stack, token => beginValue depth (.items [] :: stack) token
  | .firstKey stack, .closeObject => some (.complete (.object []) stack)
  | .firstKey stack, .text key => some (.colon [] key stack)
  | .key done stack, .text key => some (.colon done key stack)
  | .colon done key stack, .colon => some (.value (.members done key :: stack))
  | .complete value stack, token => afterValue value stack token
  | _, _ => none

def finish : State → Option Document
  | .complete value [] => some value
  | _ => none

end Reader

/-- The deepest nesting of arrays and objects that is read from a text of unknown origin. -/
def maxDepth : Nat := 127

/-- Reads a text that holds one JSON document and nothing else but white space. Arrays and
objects nest at most `depth` deep. -/
def ofTextWithin? (depth : Nat) (text : String) : Option Document := do
  let tokens ← Token.ofText? text.toList
  let state ← tokens.foldlM (Reader.step depth) (.value [])
  Reader.finish state

/-! ### Writing -/

/-- Quotes, backslashes and control characters are escaped, all else stands for itself. -/
def escapedChar (char : Char) : List Char :=
  match char with
  | '"' => ['\\', '"']
  | '\\' => ['\\', '\\']
  | '\x08' => ['\\', 'b']
  | '\x0c' => ['\\', 'f']
  | '\n' => ['\\', 'n']
  | '\r' => ['\\', 'r']
  | '\t' => ['\\', 't']
  | _ => if char.toNat < 0x20 then '\\' :: 'u' :: Text.hexPadded 4 char.toNat else [char]

def writeText (text : String) : List Char :=
  '"' :: text.toList.flatMap escapedChar ++ ['"']

/-- Floating-point numbers keep a point or an exponent: positional when the leading digit stands
between the fifth place after the point and the sixteenth before it. -/
def floatLayout : Binary64.Layout := ⟨.even, fun leading => -5 ≤ leading ∧ leading ≤ 15, ['.', '0']⟩

/-- A number that is not finite has no literal; `null` stands in for it. -/
def writeFloat (number : Binary64) : List Char :=
  if number.isFinite then floatLayout.setFinite number else "null".toList

mutual

def write : Document → List Char
  | .null => "null".toList
  | .bool truth => if truth then "true".toList else "false".toList
  | .integer number => Text.decimal number
  | .float number => writeFloat number
  | .text content => writeText content
  | .array items => '[' :: writeItems items ++ [']']
  | .object members => '\x7b' :: writeMembers members ++ ['\x7d']

def writeItems : List Document → List Char
  | [] => []
  | [item] => write item
  | item :: rest => write item ++ ',' :: writeItems rest

def writeMembers : List (String × Document) → List Char
  | [] => []
  | [(key, value)] => writeText key ++ ':' :: write value
  | (key, value) :: rest => writeText key ++ ':' :: write value ++ ',' :: writeMembers rest

end

def toText (document : Document) : String := String.ofList (write document)

/-- Every document is written. -/
def format : Format where
  read text :=
    match ofTextWithin? maxDepth text with
    | none => .error "not a JSON text"
    | some document => .ok document
  write document := .ok (toText document)
  misfit _ := "not the JSON text of such a value"

end Cascade.Json
