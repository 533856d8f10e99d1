import Cascade.Binary64.Basic
set_option autoImplicit false

/-! Documents: what the reader of a format finds in a text, and what its writer puts into one.
Readers and writers are given from outside, so that whatever is read or written is so in every
format. -/

namespace Cascade

/-- Objects keep their members in the order of the text, repeated keys included. -/
inductive Document where
  | null
  | bool (truth : Bool)
  | integer (number : Int)
  | float (number : Binary64)
  | text (text : String)
  | array (items : List Document)
  | object (members : List (String × Document))
deriving Inhabited

/-- A format of texts. Both directions may fail, with a message of their own. -/
structure Format where
  read : String → Except String Document
  write : Document → Except String String
  /-- What is said of a text that can be read, but not as what was asked for. -/
  misfit : (text : String) → String

/-- Reads a text as what its document stands for. -/
def Format.load {α : Type} (format : Format) (decode : Document → Option α) (text : String) :
    Except String α :=
  match format.read text with
  | .error problem => .error problem
  | .ok document =>
      match decode document with
      | none => .error (format.misfit text)
      | some found => .ok found

end Cascade
