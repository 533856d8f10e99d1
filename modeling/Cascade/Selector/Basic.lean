import Cascade.Error
import Cascade.Selector.Token
set_option autoImplicit false

/-! Selectors: a chain of terms from the outside in. The last term, the anchor, names the node
that the selector applies to; the others must occur, in order, among that node's ancestors. Their
specificity ranks them: every term counts one, every variant qualifier 256, in words of 32 bits that
stop at the greatest word instead of wrapping around. -/

namespace Cascade

structure Specificity where
  value : UInt32
deriving DecidableEq, Inhabited

namespace Specificity

def zero : Specificity := ⟨0⟩

/-- The word nearest to a number. -/
def saturate (number : Nat) : UInt32 := UInt32.ofNat (min number 0xffffffff)

def ofVariantCount (count : Nat) : Specificity :=
  let weighted := saturate ((saturate count).toNat * 256)
  ⟨saturate (weighted.toNat + 1)⟩

def add (left right : Specificity) : Specificity :=
  ⟨saturate (left.value.toNat + right.value.toNat)⟩

instance : Add Specificity := ⟨add⟩

def sum (parts : List Specificity) : Specificity := parts.foldl add zero

instance : LT Specificity := ⟨fun left right => left.value < right.value⟩

instance : LE Specificity := ⟨fun left right => left.value ≤ right.value⟩

instance (left right : Specificity) : Decidable (left < right) :=
  inferInstanceAs (Decidable (left.value < right.value))

instance (left right : Specificity) : Decidable (left ≤ right) :=
  inferInstanceAs (Decidable (left.value ≤ right.value))

instance : Max Specificity := ⟨fun left right => if left ≤ right then right else left⟩

end Specificity

/-- A name with variant qualifiers, as in `Button.active.hover`. -/
structure Term where
  name : String
  variants : List String
deriving DecidableEq

structure Selector where
  ancestors : List Term
  anchor : Term
deriving DecidableEq

namespace Term

def specificity (term : Term) : Specificity := .ofVariantCount term.variants.length

def toText (term : Term) : String :=
  term.name ++ String.join (term.variants.map ("." ++ ·))

end Term

namespace Selector

def ofTerms (terms : List Term) : Except SelectorError Selector :=
  match terms.getLast? with
  | none => .error .empty
  | some anchor => .ok ⟨terms.dropLast, anchor⟩

def terms (selector : Selector) : List Term := selector.ancestors ++ [selector.anchor]

/-- The name of the anchor: the name of every node that the selector can match. -/
def name (selector : Selector) : String := selector.anchor.name

def isSimple (selector : Selector) : Bool := selector.ancestors.isEmpty

def specificity (selector : Selector) : Specificity :=
  .sum (selector.terms.map Term.specificity)

def toText (selector : Selector) : String :=
  " ".intercalate (selector.terms.map Term.toText)

/-! ### Reading -/

def skipBlanks : List Token → List Token
  | .blank :: rest => skipBlanks rest
  | tokens => tokens

/-- The variants ahead, a dot in front of each, and the tokens behind them. -/
def readVariants (term : Term) : List Token → Except SelectorError (Term × List Token)
  | .dot _ :: .word variant _ :: rest =>
      readVariants { term with variants := term.variants ++ [variant] } rest
  | .dot offset :: _ => .error (.emptyVariant (offset + 1))
  | tokens => .ok (term, tokens)

/-- The term ahead, and the tokens behind it. -/
def readTerm (textLength : Nat) : List Token → Except SelectorError (Term × List Token)
  | .word name _ :: rest => readVariants ⟨name, []⟩ rest
  | .dot offset :: _ => .error (.missingName offset)
  | _ => .error (.missingName textLength)

theorem length_skipBlanks (tokens : List Token) : (skipBlanks tokens).length ≤ tokens.length := by
  fun_induction skipBlanks tokens with
  | case1 rest ih => exact Nat.le_succ_of_le ih
  | case2 => exact Nat.le_refl _

theorem length_readVariants {term read : Term} {tokens behind : List Token}
    (found : readVariants term tokens = .ok (read, behind)) : behind.length ≤ tokens.length := by
  fun_induction readVariants term tokens with
  | case1 term _ variant _ rest ih => exact Nat.le_trans (ih found) (Nat.le_add_right _ 2)
  | case2 => cases found
  | case3 =>
      cases found
      exact Nat.le_refl _

/-- A term takes a word at least. -/
theorem length_readTerm {textLength : Nat} {term : Term} {tokens behind : List Token}
    (found : readTerm textLength tokens = .ok (term, behind)) : behind.length < tokens.length := by
  unfold readTerm at found
  split at found
  · exact Nat.lt_succ_of_le (length_readVariants found)
  · cases found
  · cases found

/-- The terms that the tokens spell, behind those that were read before. White space was passed
over. -/
def readTerms (textLength : Nat) (terms : List Term) (tokens : List Token) :
    Except SelectorError (List Term) :=
  if tokens.isEmpty then .ok terms
  else
    match _found : readTerm textLength tokens with
    | .error problem => .error problem
    | .ok (term, behind) => readTerms textLength (terms ++ [term]) (skipBlanks behind)
termination_by tokens.length
decreasing_by exact Nat.lt_of_le_of_lt (length_skipBlanks _) (length_readTerm _found)

def parse (text : String) : Except SelectorError Selector :=
  (readTerms text.utf8ByteSize [] (skipBlanks (tokens text))).bind ofTerms

end Selector

end Cascade
