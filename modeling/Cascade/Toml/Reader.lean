import Cascade.Text.Digits
set_option autoImplicit false

/-! Readers: they take characters from the front of a text, or refuse it. The quoted texts of TOML
documents are read here: basic ones with escapes, literal ones without, on one line or on many. -/

namespace Cascade.Toml

/-- Refusal is final: a reader looks at the characters ahead before it decides. -/
abbrev Reader (α : Type) : Type := StateT (List Char) Option α

namespace Reader

def ahead : Reader (List Char) := get

def sees (start : List Char) : Reader Bool := do return start.isPrefixOf (← ahead)

def skip (count : Nat) : Reader Unit := modify (List.drop count)

def expect (start : List Char) : Reader Unit := do
  if ← sees start then skip start.length else failure

def any : Reader Char := do
  match ← ahead with
  | [] => failure
  | char :: rest => do
      set rest
      return char

def run (inRun : Char → Bool) : Reader (List Char) := do
  let text ← ahead
  set (text.dropWhile inRun)
  return text.takeWhile inRun

def exactly (count : Nat) : Reader (List Char) := do
  let text ← ahead
  if text.length < count then failure
  skip count
  return text.take count

/-- Repeats a step until it answers `none`, and gathers its other answers. A step that takes no
character from the text is refused. -/
def repeated {α : Type} (step : Reader (Option α)) : Reader (List α) := fun text =>
  match step text with
  | none => none
  | some (none, rest) => some ([], rest)
  | some (some item, rest) =>
      if rest.length < text.length then
        match repeated step rest with
        | none => none
        | some (items, rest) => some (item :: items, rest)
      else none
termination_by text => text.length

end Reader

/-! ### Quoted texts -/

/-- Characters that texts and comments may hold: all but the controls other than the tab. -/
def isPlain (char : Char) : Bool :=
  char = '\t' || 0x20 ≤ char.toNat && char.toNat ≠ 0x7f

def isSpace (char : Char) : Bool := char = ' ' || char = '\t'

namespace Reader

def spaces : Reader Unit := do
  let _ ← run isSpace

def seesNewline : Reader Bool := do
  return (← sees ['\n']) || (← sees ['\r', '\n'])

def newline : Reader Unit := do
  if ← sees ['\r', '\n'] then skip 2 else expect ['\n']

/-- A character by its code point, which must not be a surrogate. -/
def codePoint (width : Nat) : Reader Char := do
  match Text.numberOf? 16 (← exactly width) with
  | some number => if number.isValidChar then return Char.ofNat number else failure
  | none => failure

def escape : Reader Char := do
  match ← any with
  | 'b' => return '\x08'
  | 't' => return '\t'
  | 'n' => return '\n'
  | 'f' => return '\x0c'
  | 'r' => return '\r'
  | '"' => return '"'
  | '\\' => return '\\'
  | 'u' => codePoint 4
  | 'U' => codePoint 8
  | _ => failure

def plain : Reader Char := do
  let char ← any
  if isPlain char then return char else failure

def basicLine : Reader (List Char) :=
  repeated do
    match ← any with
    | '"' => return none
    | '\\' => return some (← escape)
    | char => if isPlain char then return some char else failure

def literalLine : Reader (List Char) :=
  repeated do
    match ← any with
    | '\'' => return none
    | char => if isPlain char then return some char else failure

def blankLines : Reader Unit := do
  let _ ← repeated do
    if ← seesNewline then
      newline
      return some ()
    else
      let run ← run isSpace
      return if run.isEmpty then none else some ()

def quotesAhead (quote : Char) : Reader Nat := do
  return ((← ahead).takeWhile (· = quote)).length

/-- The rest of a text on many lines, behind its opening quotes and the line end right behind
them. Line ends are kept as line feeds. Three quotes close the text; fewer, and up to two right
before the closing ones, belong to it. -/
def manyLines (quote : Char) (piece : Reader (List Char)) : Reader (List Char) := do
  if ← seesNewline then newline
  let pieces ← repeated do
    let count ← quotesAhead quote
    if 3 ≤ count then return none
    else if 0 < count then
      skip count
      return some (List.replicate count quote)
    else if ← seesNewline then
      newline
      return some ['\n']
    else return some (← piece)
  let count ← quotesAhead quote
  if 5 < count then failure
  skip count
  return pieces.flatten ++ List.replicate (count - 3) quote

/-- A piece of a basic text on many lines. A backslash at the end of a line, white space behind
it allowed, takes the line end and all white space after it out of the text. -/
def basicPiece : Reader (List Char) := do
  if ← sees ['\\'] then
    skip 1
    let behind ← ahead
    spaces
    if ← seesNewline then
      blankLines
      return []
    else
      set behind
      return [← escape]
  else return [← plain]

def basicLines : Reader (List Char) := manyLines '"' basicPiece

def literalLines : Reader (List Char) := manyLines '\'' do return [← plain]

/-- A text behind its opening quotes, which say of what kind it is. -/
def quoted : Reader String := do
  if ← sees ['"', '"', '"'] then
    skip 3
    return String.ofList (← basicLines)
  else if ← sees ['\'', '\'', '\''] then
    skip 3
    return String.ofList (← literalLines)
  else if ← sees ['"'] then
    skip 1
    return String.ofList (← basicLine)
  else
    expect ['\'']
    return String.ofList (← literalLine)

end Reader

end Cascade.Toml
