import Cascade.Document
import Cascade.Value.Basic
set_option autoImplicit false

/-! Values as documents. A document does not say which kind of value it stands for: the kinds are
tried one after the other, and the first that fits is taken. The members of an object are inserted
into a map one by one. -/

namespace Cascade

namespace Value

/-! ### Writing -/

mutual

def encode : Value → Document
  | .bool truth => .bool truth
  | .int number => .integer number.toInt
  | .float number => .float number
  | .str text => .text text
  | .list items => .array (encodeItems items)
  | .map ⟨entries⟩ => .object (encodeEntries entries)
  | .null => .null

def encodeItems : List Value → List Document
  | [] => []
  | item :: rest => encode item :: encodeItems rest

def encodeEntries : List (String × Value) → List (String × Document)
  | [] => []
  | (key, value) :: rest => (key, encode value) :: encodeEntries rest

end

/-! ### Reading -/

def bool? : Document → Option Value
  | .bool truth => some (.bool truth)
  | _ => none

/-- Integers of 64 bits with a sign. -/
def int? : Document → Option Value
  | .integer number =>
      if Int64.minValue.toInt ≤ number ∧ number ≤ Int64.maxValue.toInt then
        some (.int (Int64.ofInt number))
      else none
  | _ => none

/-- Any number, rounded where it has to be. -/
def float? : Document → Option Value
  | .integer number => some (.float (Binary64.ofInt number))
  | .float number => some (.float number)
  | _ => none

def str? : Document → Option Value
  | .text text => some (.str text)
  | _ => none

def null? : Document → Option Value
  | .null => some .null
  | _ => none

/-- Tries the kinds of values in the order in which they are declared. The document may be a list
of the given items, or a map of the given fields. -/
def attempt (document : Document) (items? : Option (List Value)) (fields? : Option PropMap) :
    Option Value :=
  bool? document <|> int? document <|> float? document <|> str? document <|>
    items?.map .list <|> fields?.map .map <|> null? document

mutual

def decode : Document → Option Value
  | .array items => attempt (.array items) (decodeItems items) none
  | .object members => attempt (.object members) none (decodeMembers ∅ members)
  | document => attempt document none none

def decodeItems : List Document → Option (List Value)
  | [] => some []
  | item :: rest => do return (← decode item) :: (← decodeItems rest)

/-- Inserts the members into a map, in order. -/
def decodeMembers (fields : PropMap) : List (String × Document) → Option PropMap
  | [] => some fields
  | (key, document) :: rest => do
      let value ← decode document
      decodeMembers (fields.insert key value) rest

end

/-! ### Texts -/

def toText (format : Format) (value : Value) : Except String String := format.write value.encode

def ofText (format : Format) (text : String) : Except String Value := format.load decode text

end Value

namespace PropMap

def decode : Document → Option PropMap
  | .object members => Value.decodeMembers ∅ members
  | _ => none

def toText (format : Format) (map : PropMap) : Except String String :=
  (Value.map map).toText format

def ofText (format : Format) (text : String) : Except String PropMap := format.load decode text

end PropMap

end Cascade
