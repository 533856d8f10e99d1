import Cascade.Value.Basic
set_option autoImplicit false

/-! What rules contribute, what remains of it when the contributions to one context are merged, and
the props of a node: its own props on top of what the rules contribute. -/

namespace Cascade

/-- What a rule contributes when it matches: props, style, and the names of the mixins that are
merged in below them, in order. A `style` key among the props is never used. -/
structure RulePayload where
  props : Option PropMap := none
  style : Option PropMap := none
  mixins : List String := []

/-- Merged props and style. A map that no rule sets is absent, which is not the same as empty. -/
structure ResolvedPayload where
  props : Option PropMap := none
  style : Option PropMap := none

namespace ResolvedPayload

def empty : ResolvedPayload := {}

instance : EmptyCollection ResolvedPayload := ⟨empty⟩

instance : Inhabited ResolvedPayload := ⟨empty⟩

def isEmpty (payload : ResolvedPayload) : Bool :=
  payload.props.isNone && payload.style.isNone

/-- Adds the absent keys of the source, if there is one; then the result is present, too. -/
def mergeMap (target source : Option PropMap) : Option PropMap :=
  match source with
  | none => target
  | some added => some ((target.getD ∅).mergeAbsent added)

def mergeAbsent (payload other : ResolvedPayload) : ResolvedPayload :=
  ⟨mergeMap payload.props other.props, mergeMap payload.style other.style⟩

def sameMap : Option PropMap → Option PropMap → Bool
  | none, none => true
  | some left, some right => left.same right
  | _, _ => false

/-- Equality up to the order of entries. -/
def same (left right : ResolvedPayload) : Bool :=
  sameMap left.props right.props && sameMap left.style right.style

end ResolvedPayload

/-! ### Own props -/

def styleKey : String := "style"

/-- Style of rules below the style that a node has itself. The two are not merged key by key:
the style of the rules goes in front of the node's own, so that later entries lie on top. -/
def composeStyle (style : PropMap) : (own? : Option Value) → Value
  | none => .map style
  | some (.list entries) => .list (.map style :: entries)
  | some own => .list [.map style, own]

namespace ResolvedPayload

/-- The props without those under the style key, which only the style itself may fill. -/
def plainProps (payload : ResolvedPayload) : PropMap :=
  ⟨(payload.props.getD ∅).entries.filter fun entry => entry.1 ≠ styleKey⟩

/-- Own props win over the props of rules; style is composed. -/
def mergeOwn (payload : ResolvedPayload) (own : Option PropMap) : PropMap :=
  let base := own.getD ∅
  let merged := base.mergeAbsent payload.plainProps
  match payload.style with
  | none => merged
  | some style => merged.insert styleKey (composeStyle style (base.get? styleKey))

end ResolvedPayload

end Cascade
