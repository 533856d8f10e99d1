import Cascade.Toml.Assembly
import Cascade.Toml.Reader
import Cascade.Toml.Table
set_option autoImplicit false

/-! The format of TOML texts: lines with keys and values, or with headers of tables. Only flat
tables of truth values and integers are written. -/

namespace Cascade.Toml

/-- Arrays and inline tables nest at most so deep, and keys have at most so many parts. -/
def maxDepth : Nat := 79

namespace Reader

def isScalarChar (char : Char) : Bool :=
  char.isAlphanum || char = '+' || char = '-' || char = '_' || char = '.' || char = ':'

def keyPart : Reader String := do
  if ← sees ['"'] then
    skip 1
    return String.ofList (← basicLine)
  else if ← sees ['\''] then
    skip 1
    return String.ofList (← literalLine)
  else
    let name ← run isKeyChar
    if name.isEmpty then failure else return String.ofList name

def path : Reader Path := do
  spaces
  let first ← keyPart
  spaces
  let others ← repeated do
    if ← sees ['.'] then
      skip 1
      spaces
      let part ← keyPart
      spaces
      return some part
    else return none
  let parts := first :: others
  if maxDepth < parts.length then failure
  return ⟨parts.dropLast, parts.getLastD first⟩

def comment : Reader Unit := do
  expect ['#']
  let _ ← run isPlain

def lineEnd : Reader Unit := do
  spaces
  if ← sees ['#'] then comment
  if (← ahead).isEmpty then return ()
  newline

def blankOrComments : Reader Unit := do
  let _ ← repeated do
    if ← sees ['#'] then
      comment
      newline
      return some ()
    else if ← seesNewline then
      newline
      return some ()
    else
      let blanks ← run isSpace
      return if blanks.isEmpty then none else some ()

/-- A scalar without quotes. A time may follow its date behind a space. -/
def scalar : Reader Toml := do
  let word ← run isScalarChar
  let isDate := match Date.read? word with
    | some (_, []) => true
    | _ => false
  let rest ← ahead
  let word ← match rest with
    | ' ' :: digit :: _ =>
        if isDate && digit.isDigit then do
          skip 1
          let time ← run isScalarChar
          pure (word ++ ' ' :: time)
        else pure word
    | _ => pure word
  match Scalar.ofWord? word with
  | some found => return found
  | none => failure

/-- An array: items divided by commas, one comma behind the last allowed. -/
def array (item : Reader Toml) : Reader Toml := do
  expect ['[']
  let items ← repeated do
    blankOrComments
    if ← sees [']'] then return none
    else
      let found ← item
      blankOrComments
      if ← sees [','] then skip 1
      else if !(← sees [']']) then failure
      return some found
  expect [']']
  return .array items

def pair (item : Reader Toml) : Reader (Path × Toml) := do
  let path ← path
  expect ['=']
  spaces
  return (path, ← item)

/-- A table within braces, on one line, no comma behind the last pair. -/
def inlineTable (item : Reader Toml) : Reader Toml := do
  expect ['\x7b']
  spaces
  let pairs ← if ← sees ['\x7d'] then pure [] else do
    let first ← pair item
    spaces
    let others ← repeated do
      if ← sees [','] then
        skip 1
        let next ← pair item
        spaces
        return some next
      else return none
    pure (first :: others)
  expect ['\x7d']
  match Table.ofPairs? pairs with
  | some entries => return .table entries
  | none => failure

/-- A value in which arrays and inline tables nest at most `room` deep. -/
def value (room : Nat) : Reader Toml := do
  let within (container : Reader Toml → Reader Toml) : Reader Toml :=
    match room with
    | 0 => failure
    | room + 1 => container (value room)
  if ← sees ['['] then within array
  else if ← sees ['\x7b'] then within inlineTable
  else if (← sees ['"']) || (← sees ['\'']) then return .text (← quoted)
  else scalar
termination_by structural room

def statement : Reader Statement := do
  if ← sees ['[', '['] then
    skip 2
    let header ← path
    expect [']', ']']
    return .openElement header
  else if ← sees ['['] then
    skip 1
    let header ← path
    expect [']']
    return .openTable header
  else
    let (path, value) ← pair (value maxDepth)
    return .assign path value

def statements : Reader (List Statement) := do
  let lines ← repeated do
    spaces
    if (← ahead).isEmpty then return none
    else if (← sees ['#']) || (← seesNewline) then
      lineEnd
      return some []
    else
      let found ← statement
      lineEnd
      return some [found]
  return lines.flatten

end Reader

/-- Reads a whole document. A byte order mark in front of it is passed over. -/
def Table.ofText? (text : String) : Option Table := do
  let chars := match text.toList with
    | '\ufeff' :: rest => rest
    | chars => chars
  let (statements, _) ← Reader.statements chars
  Table.ofStatements? statements

/-! ### Documents -/

/-- The only key of the object that stands for a date or a time; its text is the value. -/
def momentKey : String := "$__toml_private_datetime"

mutual

def toDocument : Toml → Document
  | .text content => .text content
  | .integer number => .integer number.toInt
  | .float number => .float number
  | .bool truth => .bool truth
  | .moment content => .object [(momentKey, .text content)]
  | .array items => .array (itemDocuments items)
  | .table ⟨entries⟩ => .object (entryDocuments entries)

def itemDocuments : List Toml → List Document
  | [] => []
  | item :: rest => toDocument item :: itemDocuments rest

def entryDocuments : List (String × Toml) → List (String × Document)
  | [] => []
  | (key, value) :: rest => (key, toDocument value) :: entryDocuments rest

end

/-! ### Writing -/

def word? : Document → Option (List Char)
  | .bool truth => some (if truth then "true" else "false").toList
  | .integer number =>
      if FitsWord number then some (Text.decimal number) else none
  | _ => none

def line? (member : String × Document) : Option (List Char) :=
  if isBare member.1 then
    (word? member.2).map fun word => member.1.toList ++ (" = ".toList ++ (word ++ ['\n']))
  else none

/-- One line for each member. -/
def lines? : List (String × Document) → Option (List Char)
  | [] => some []
  | member :: rest => do return (← line? member) ++ (← lines? rest)

def format : Format where
  read text :=
    match Table.ofText? text with
    | none => .error "not a TOML text"
    | some found => .ok (.object (entryDocuments found.entries))
  write
    | .object members =>
        match lines? members with
        | none => .error "not a table of truth values and integers"
        | some chars => .ok (String.ofList chars)
    | _ => .error "not a table"
  misfit _ := "not the TOML text of such a value"

end Cascade.Toml
