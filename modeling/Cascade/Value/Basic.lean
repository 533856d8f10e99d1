import Cascade.Binary64.Decimal
import Cascade.OrderedMap.Basic
import Cascade.Text.Quoted
set_option autoImplicit false

/-! Values of props. The engine never interprets one: it only decides which value a key takes.

Values of different kinds differ, floating-point numbers are compared by value (so that a NaN
differs from itself), lists item by item, and maps without regard to the order of their entries. In
the text of a value for a reader, strings are quoted and the keys of maps bare. -/

namespace Cascade

inductive Value where
  | bool (truth : Bool)
  | int (number : Int64)
  | float (number : Binary64)
  | str (text : String)
  | list (items : List Value)
  | map (fields : OrderedMap String Value)
  | null
deriving Inhabited

/-- The props of a node, a style, a payload: names bound to values, in order. -/
abbrev PropMap := OrderedMap String Value

namespace Value

def asMap? : Value → Option PropMap
  | .map fields => some fields
  | _ => none

def asList? : Value → Option (List Value)
  | .list items => some items
  | _ => none

def asStr? : Value → Option String
  | .str text => some text
  | _ => none

/-! ### Equality -/

theorem sizeOf_get? {fields : PropMap} {key : String} {found : Value}
    (held : fields.get? key = some found) : sizeOf found < sizeOf fields := by
  obtain ⟨entries⟩ := fields
  rw [OrderedMap.get?] at held
  induction entries with
  | nil => cases held
  | cons entry rest ih =>
      obtain ⟨present, value⟩ := entry
      rw [OrderedMap.lookup] at held
      split at held
      · cases held
        rw [OrderedMap.mk.sizeOf_spec, List.cons.sizeOf_spec, Prod.mk.sizeOf_spec]
        omega
      · have later := ih held
        rw [OrderedMap.mk.sizeOf_spec] at later ⊢
        rw [List.cons.sizeOf_spec]
        omega

mutual

def same : Value → Value → Bool
  | .bool left, .bool right => left == right
  | .int left, .int right => left == right
  | .float left, .float right => left == right
  | .str left, .str right => left == right
  | .list left, .list right => sameItems left right
  | .map ⟨left⟩, .map right => left.length == right.size && allFound left right
  | .null, .null => true
  | _, _ => false
termination_by left right => sizeOf left + sizeOf right

def sameItems : List Value → List Value → Bool
  | [], [] => true
  | left :: lefts, right :: rights => same left right && sameItems lefts rights
  | _, _ => false
termination_by lefts rights => sizeOf lefts + sizeOf rights

/-- Whether the map has every one of the entries. What it has under a key is compared with what the
entry binds, so that the two sides change places at every map. -/
def allFound : List (String × Value) → PropMap → Bool
  | [], _ => true
  | (key, value) :: rest, fields =>
      (match _held : fields.get? key with
        | some found => same found value
        | none => false) && allFound rest fields
termination_by entries fields => sizeOf entries + sizeOf fields
decreasing_by
  · have smaller := sizeOf_get? _held
    rw [List.cons.sizeOf_spec, Prod.mk.sizeOf_spec]
    omega
  · rw [List.cons.sizeOf_spec]
    omega

end

instance : BEq Value := ⟨same⟩

/-! ### Display -/

mutual

def display : Value → String
  | .bool truth => if truth then "true" else "false"
  | .int number => toString number.toInt
  | .float number => number.display
  | .str text => Text.quoted text
  | .list items => "[" ++ displayItems items ++ "]"
  | .map ⟨entries⟩ => "\x7b" ++ displayEntries entries ++ "\x7d"
  | .null => "null"

def displayItems : List Value → String
  | [] => ""
  | [item] => display item
  | item :: rest => display item ++ ", " ++ displayItems rest

def displayEntries : List (String × Value) → String
  | [] => ""
  | [(key, value)] => key ++ ": " ++ display value
  | (key, value) :: rest => key ++ ": " ++ display value ++ ", " ++ displayEntries rest

end

end Value

namespace PropMap

/-- Maps of equal size are equal when one has every entry of the other. -/
def same (left right : PropMap) : Bool :=
  left.size == right.size && Value.allFound left.entries right

instance : BEq PropMap := ⟨same⟩

def display (map : PropMap) : String := (Value.map map).display

end PropMap

end Cascade
