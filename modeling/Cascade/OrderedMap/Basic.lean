set_option autoImplicit false

/-! Finite maps that remember the order in which their keys were added. A key keeps the
position of its first addition when its value is overwritten, and takes a new position, the
last, when it is added again after its removal. Lookups scan the entries from the front. -/

namespace Cascade

structure OrderedMap (κ : Type) (α : Type) where
  entries : List (κ × α)

namespace OrderedMap

variable {κ α : Type}

def empty : OrderedMap κ α := ⟨[]⟩

instance : EmptyCollection (OrderedMap κ α) := ⟨empty⟩

instance : Inhabited (OrderedMap κ α) := ⟨empty⟩

def size (map : OrderedMap κ α) : Nat := map.entries.length

def isEmpty (map : OrderedMap κ α) : Bool := map.entries.isEmpty

def keys (map : OrderedMap κ α) : List κ := map.entries.map Prod.fst

def values (map : OrderedMap κ α) : List α := map.entries.map Prod.snd

variable [DecidableEq κ]

def lookup (key : κ) : List (κ × α) → Option α
  | [] => none
  | (present, value) :: rest => if present = key then some value else lookup key rest

/-- The first entry under the key takes the value; a new key goes to the end. -/
def overwrite (key : κ) (value : α) : List (κ × α) → List (κ × α)
  | [] => [(key, value)]
  | (present, old) :: rest =>
      if present = key then (present, value) :: rest else (present, old) :: overwrite key value rest

def withhold (key : κ) : List (κ × α) → List (κ × α)
  | [] => []
  | (present, value) :: rest =>
      if present = key then rest else (present, value) :: withhold key rest

def get? (map : OrderedMap κ α) (key : κ) : Option α := lookup key map.entries

def contains (map : OrderedMap κ α) (key : κ) : Bool := (map.get? key).isSome

def insert (map : OrderedMap κ α) (key : κ) (value : α) : OrderedMap κ α :=
  ⟨overwrite key value map.entries⟩

def getThenInsert? (map : OrderedMap κ α) (key : κ) (value : α) : Option α × OrderedMap κ α :=
  (map.get? key, map.insert key value)

/-- Adds the entry at the end unless the key is present already. -/
def insertIfNew (map : OrderedMap κ α) (key : κ) (value : α) : OrderedMap κ α :=
  if map.contains key then map else ⟨map.entries ++ [(key, value)]⟩

def containsThenInsertIfNew (map : OrderedMap κ α) (key : κ) (value : α) :
    Bool × OrderedMap κ α :=
  (map.contains key, map.insertIfNew key value)

/-- Adds every entry of the source whose key is absent: the first write wins. -/
def mergeAbsent (map source : OrderedMap κ α) : OrderedMap κ α :=
  source.entries.foldl (fun merged entry => merged.insertIfNew entry.1 entry.2) map

def erase (map : OrderedMap κ α) (key : κ) : OrderedMap κ α := ⟨withhold key map.entries⟩

def getThenErase? (map : OrderedMap κ α) (key : κ) : Option α × OrderedMap κ α :=
  (map.get? key, map.erase key)

/-- Inserts the pairs one after the other, so that the last value of a key wins and the first
position stays. -/
def ofList (pairs : List (κ × α)) : OrderedMap κ α :=
  pairs.foldl (fun map pair => map.insert pair.1 pair.2) empty

/-- No key occurs twice. Every map built by the operations above from such maps is one. -/
def KeysDistinct (map : OrderedMap κ α) : Prop := map.keys.Nodup

end OrderedMap

end Cascade
