import Cascade.Context.Variants
import Cascade.Selector.Basic
set_option autoImplicit false

/-! Match contexts: the position of a node in the component tree, against which rules are
tested. A context is data of its own and two contexts are equal when their nodes have the same
names and the same sets of variants. -/

namespace Cascade

structure Context.Node where
  name : String
  variants : VariantSet
deriving DecidableEq

/-- A node, the subject, below its ancestors, the outermost first. -/
structure Context where
  ancestors : List Context.Node
  subject : Context.Node
deriving DecidableEq

namespace Context.Node

def ofName (name : String) : Node := ⟨name, ∅⟩

def withVariant (node : Node) (variant : String) : Node :=
  { node with variants := node.variants.insert variant }

def withVariants (node : Node) (variants : List String) : Node :=
  { node with variants := node.variants.insertMany variants }

def ofTerm (term : Term) : Node := (ofName term.name).withVariants term.variants

def hasVariant (node : Node) (variant : String) : Bool := node.variants.contains variant

def hasVariants (node : Node) : Bool := !node.variants.isEmpty

def renamed (node : Node) (name : String) : Node := { node with name }

def toText (node : Node) : String :=
  node.name ++ String.join (node.variants.members.map ("." ++ ·))

end Context.Node

namespace Context

def ofRoot (subject : Node) : Context := ⟨[], subject⟩

def child (context : Context) (node : Node) : Context :=
  ⟨context.ancestors ++ [context.subject], node⟩

def ofSelector (selector : Selector) : Context :=
  ⟨selector.ancestors.map Node.ofTerm, Node.ofTerm selector.anchor⟩

/-- Reads a path such as `App Button.active Text`, whose last word is the subject. -/
def parse (path : String) : Except StyleError Context :=
  match Selector.parse path with
  | .ok selector => .ok (ofSelector selector)
  | .error cause => .error (.context path cause)

/-- The same position with the subject renamed. Mixins are resolved in it, so that rules for a
mixin see the ancestors and the variants of the node that refers to it. -/
def forMixin (context : Context) (name : String) : Context :=
  { context with subject := context.subject.renamed name }

def name (context : Context) : String := context.subject.name

def depth (context : Context) : Nat := context.ancestors.length + 1

def toText (context : Context) : String :=
  String.join (context.ancestors.map fun node => node.toText ++ " ") ++ context.subject.toText

end Context

end Cascade
