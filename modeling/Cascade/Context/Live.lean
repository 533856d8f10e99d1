import Cascade.Context.Basic
set_option autoImplicit false

/-! Contexts of live nodes. A host makes its own type of nodes an instance of `LiveNode`; the
context of a node is read off by walking its parents. -/

namespace Cascade

inductive ReportedVariants where
  | none
  | one (variant : String)
  | many (variants : List String)

/-- What the engine has to know of a host's node. The height witnesses that the walk from
parent to parent ends. -/
class LiveNode (ν : Type) where
  name : ν → String
  parent? : ν → Option ν
  variants : ν → ReportedVariants := fun _ => .none
  height : ν → Nat
  height_parent {node parent : ν} : parent? node = some parent → height parent < height node

namespace Context

def Node.ofReported (name : String) : ReportedVariants → Node
  | .none => Node.ofName name
  | .one variant => (Node.ofName name).withVariant variant
  | .many variants => (Node.ofName name).withVariants variants

variable {ν : Type} [LiveNode ν]

def Node.ofLive (node : ν) : Node := Node.ofReported (LiveNode.name node) (LiveNode.variants node)

/-- Walks up from parent to parent and pushes every node that it meets. -/
def pushAncestors (pushed : List Node) (node : ν) : List Node :=
  match _found : LiveNode.parent? node with
  | none => pushed
  | some parent => pushAncestors (pushed ++ [Node.ofLive parent]) parent
termination_by LiveNode.height node
decreasing_by exact LiveNode.height_parent _found

def ofLive (node : ν) : Context := ⟨(pushAncestors [] node).reverse, Node.ofLive node⟩

end Context

inductive LinkedNode where
  | root (name : String) (variants : ReportedVariants)
  | child (parent : LinkedNode) (name : String) (variants : ReportedVariants)

namespace LinkedNode

def name : LinkedNode → String
  | .root name _ => name
  | .child _ name _ => name

def variants : LinkedNode → ReportedVariants
  | .root _ variants => variants
  | .child _ _ variants => variants

def parent? : LinkedNode → Option LinkedNode
  | .root _ _ => none
  | .child parent _ _ => some parent

def height : LinkedNode → Nat
  | .root _ _ => 0
  | .child parent _ _ => parent.height + 1

theorem height_parent {node parent : LinkedNode} (linked : node.parent? = some parent) :
    parent.height < node.height := by
  cases node with
  | root => cases linked
  | child above name variants =>
      cases linked
      exact Nat.lt_succ_self _

instance : LiveNode LinkedNode where
  name := name
  parent? := parent?
  variants := variants
  height := height
  height_parent := height_parent

end LinkedNode

end Cascade
