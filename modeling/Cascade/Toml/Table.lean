import Cascade.Document
set_option autoImplicit false

/-! Tables of TOML documents, and formats that read and write them. A table is an object without
repeated keys, and the order of its members does not matter. Integers have 64 bits with a sign. -/

namespace Cascade.Toml

def FitsWord (number : Int) : Prop :=
  Int64.minValue.toInt ≤ number ∧ number ≤ Int64.maxValue.toInt

instance (number : Int) : Decidable (FitsWord number) :=
  inferInstanceAs (Decidable (_ ∧ _))

def isKeyChar (char : Char) : Bool := char.isAlphanum || char = '_' || char = '-'

/-- The key needs no quotes. -/
def isBare (key : String) : Bool := !key.toList.isEmpty && key.toList.all isKeyChar

/-- The integer occurs in the document. -/
inductive Occurs (number : Int) : Document → Prop
  | here : Occurs number (.integer number)
  | item {items : List Document} {item : Document} (listed : item ∈ items)
      (inside : Occurs number item) : Occurs number (.array items)
  | member {members : List (String × Document)} {member : String × Document}
      (listed : member ∈ members) (inside : Occurs number member.2) :
      Occurs number (.object members)

inductive IsScalar : Document → Prop
  | bool (truth : Bool) : IsScalar (.bool truth)
  | integer {number : Int} (fits : FitsWord number) : IsScalar (.integer number)

/-- A table of truth values and integers whose keys need no quotes. -/
structure IsFlat (members : List (String × Document)) : Prop where
  distinct : (members.map Prod.fst).Nodup
  bare : ∀ member ∈ members, isBare member.1 = true
  scalars : ∀ member ∈ members, IsScalar member.2

/-! ### Formats -/

/-- The reader finds no greater integers than words. -/
def ReadsWords (format : Format) : Prop :=
  ∀ (text : String) (document : Document), format.read text = .ok document →
    ∀ number, Occurs number document → FitsWord number

/-- The writer takes every flat table. -/
def WritesTables (format : Format) : Prop :=
  ∀ members, IsFlat members → ∃ text, format.write (.object members) = .ok text

/-- What is written for a flat table is read as the same table. -/
def ReadsWritten (format : Format) : Prop :=
  ∀ members text, IsFlat members → format.write (.object members) = .ok text →
    ∃ found, format.read text = .ok (.object found) ∧ found.Perm members

end Cascade.Toml
