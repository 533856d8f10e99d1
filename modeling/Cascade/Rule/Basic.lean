import Cascade.Context.Basic
import Cascade.Rule.Payload
set_option autoImplicit false

/-! Rules: selectors bound to payloads, and the order in which rules of one anchor are visited.

A rule matches the contexts that its selector matches. The anchor must match the subject; the other
terms are matched from the inside out, each by the innermost ancestor that is still free and inside
of which the later terms are matched. -/

namespace Cascade

/-! ### Matching -/

def Term.matches (term : Term) (node : Context.Node) : Bool :=
  term.name == node.name && term.variants.all node.hasVariant

/-- Whether the terms match some of the nodes, in order; both lists go from the inside out.
Each term takes the first node that it matches. -/
def Term.matchesInOrder : List Term → List Context.Node → Bool
  | [], _ => true
  | _ :: _, [] => false
  | term :: pending, node :: outside =>
      if term.matches node then matchesInOrder pending outside
      else matchesInOrder (term :: pending) outside

def Selector.matches (selector : Selector) (context : Context) : Bool :=
  selector.anchor.matches context.subject &&
    Term.matchesInOrder selector.ancestors.reverse context.ancestors.reverse

/-! ### Rules -/

/-- The priority class of a rule. Explicit rules go before default rules. -/
inductive Rank where
  | default
  | explicit
deriving DecidableEq

/-- Rules are numbered as they are added. Numbers are unbounded here; in words of 64 bits they are
the same as long as fewer than `2 ^ 64` rules were added. -/
structure RuleId where
  number : Nat
deriving DecidableEq

structure Rule where
  id : RuleId
  selector : Selector
  rank : Rank
  payload : RulePayload

namespace Rank

def number : Rank → Nat
  | .default => 0
  | .explicit => 1

end Rank

namespace Rule

def key (rule : Rule) : String := rule.selector.name

def specificity (rule : Rule) : Specificity := rule.selector.specificity

def ownPayload (rule : Rule) : ResolvedPayload := ⟨rule.payload.props, rule.payload.style⟩

/-- Rules of one selector and rank take the same place in a store. -/
def sameSlot (rule other : Rule) : Bool :=
  rule.rank == other.rank && rule.selector == other.selector

/-- Higher rank comes first, within a rank higher specificity. -/
def outranks (rule other : Rule) : Bool :=
  other.rank.number < rule.rank.number ||
    other.rank == rule.rank && other.specificity < rule.specificity

end Rule

def Rule.matches (rule : Rule) (context : Context) : Bool := rule.selector.matches context

end Cascade
