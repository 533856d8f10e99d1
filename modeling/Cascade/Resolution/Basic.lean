import Cascade.Error
import Cascade.Rule.Store
set_option autoImplicit false

/-! Resolution: all rules that match a context are merged, the strongest first, each one's
mixins below it. For every key the first write wins.

A mixin is resolved in the context of the node that refers to it. The path holds the names of
the mixins under expansion, the outermost first: a name on the path must not be entered again,
and a full path must not grow. -/

namespace Cascade

/-- What a rule, or all matching rules, contribute to a context once mixins are merged in. -/
structure Expansion where
  payload : ResolvedPayload
  /-- The length of the longest chain of mixins. -/
  depth : Nat

namespace Expansion

def ofRule (rule : Rule) : Expansion := ⟨rule.ownPayload, 0⟩

def merge (expansion weaker : Expansion) : Expansion :=
  ⟨expansion.payload.mergeAbsent weaker.payload, max expansion.depth weaker.depth⟩

/-- Takes over a payload into which a mixin was merged, with the chain below that mixin. -/
def descend (expansion nested : Expansion) : Expansion :=
  ⟨nested.payload, max expansion.depth (nested.depth + 1)⟩

variable {m : Type → Type} [Monad m]

/-- Enters the mixins, in order. Each one is merged below what is there already. -/
def mergeMixins (enter : String → ResolvedPayload → m Expansion) (expansion : Expansion) :
    List String → m Expansion
  | [] => pure expansion
  | name :: rest => do
      let nested ← enter name expansion.payload
      mergeMixins enter (expansion.descend nested) rest

/-- Merges the rules, in order, below what is there already. Only rules with mixins have to be
expanded. -/
def mergeRules (expand : Rule → m Expansion) (expansion : Expansion) :
    List Rule → m Expansion
  | [] => pure expansion
  | rule :: rest =>
      if rule.payload.mixins.isEmpty then mergeRules expand (expansion.merge (ofRule rule)) rest
      else do
        let contribution ← expand rule
        mergeRules expand (expansion.merge contribution) rest

def expandRule (enter : String → ResolvedPayload → m Expansion) (rule : Rule) : m Expansion :=
  mergeMixins enter (ofRule rule) rule.payload.mixins

end Expansion

/-- The rules that a context calls for, in the order in which they are visited. -/
def RuleStore.matching (store : RuleStore) (context : Context) : List Rule :=
  (store.rulesAnchoredAt context.name).filter (·.matches context)

/-! ### Visits -/

/-- Resolves contexts by the rules of a store. How a rule with mixins is expanded is left open, so
that expansions may be remembered. -/
structure Resolver (m : Type → Type) where
  store : RuleStore
  /-- How many names a path may hold. -/
  limit : Nat
  /-- The expansion of a rule for a context, at a path of as many names, where mixins are entered as
  the third argument says. -/
  expand : Nat → Context → (String → ResolvedPayload → m Expansion) → Rule → m Expansion

namespace Resolver

variable {m : Type → Type} [Monad m] [MonadExceptOf StyleError m]

/-- Merges the rules that match the context below the payload. -/
def collect (resolver : Resolver m) (path : List String) (context : Context)
    (enter : String → ResolvedPayload → m Expansion) (payload : ResolvedPayload) : m Expansion :=
  Expansion.mergeRules (resolver.expand path.length context enter) ⟨payload, 0⟩
    (resolver.store.matching context)

/-- Resolves a mixin of a rule for the context and merges it below the payload. `room` is how far
the path may still grow. -/
def enter (resolver : Resolver m) (room : Nat) (path : List String) (context : Context)
    (name : String) (payload : ResolvedPayload) : m Expansion :=
  if name ∈ path then throw (.cyclicMixin (path ++ [name]))
  else match room with
    | 0 => throw (.mixinDepthExceeded name resolver.limit)
    | left + 1 =>
        resolver.collect (path ++ [name]) (context.forMixin name)
          (resolver.enter left (path ++ [name]) (context.forMixin name)) payload
termination_by structural room

def visit (resolver : Resolver m) (room : Nat) (path : List String) (context : Context)
    (payload : ResolvedPayload) : m Expansion :=
  resolver.collect path context (resolver.enter room path context) payload

variable {resolver : Resolver m} {room : Nat} {path : List String} {context : Context}
  {name : String}

theorem visit_eq (payload : ResolvedPayload) :
    resolver.visit room path context payload =
      Expansion.mergeRules (resolver.expand path.length context (resolver.enter room path context))
        ⟨payload, 0⟩ (resolver.store.matching context) := rfl

theorem enter_of_mem (repeated : name ∈ path) (payload : ResolvedPayload) :
    resolver.enter room path context name payload = throw (.cyclicMixin (path ++ [name])) := by
  cases room with
  | zero => exact if_pos repeated
  | succ left => exact if_pos repeated

theorem enter_zero (fresh : name ∉ path) (payload : ResolvedPayload) :
    resolver.enter 0 path context name payload =
      throw (.mixinDepthExceeded name resolver.limit) :=
  if_neg fresh

theorem enter_succ {left : Nat} (fresh : name ∉ path) (payload : ResolvedPayload) :
    resolver.enter (left + 1) path context name payload =
      resolver.visit left (path ++ [name]) (context.forMixin name) payload :=
  if_neg fresh

end Resolver

namespace Resolution

/-- Expands every rule anew. -/
def resolver (store : RuleStore) (limit : Nat) : Resolver (Except StyleError) :=
  ⟨store, limit, fun _ _ => Expansion.expandRule⟩

def enter (store : RuleStore) (limit : Nat) :
    Nat → List String → Context → String → ResolvedPayload → Except StyleError Expansion :=
  (resolver store limit).enter

def visit (store : RuleStore) (limit : Nat) :
    Nat → List String → Context → ResolvedPayload → Except StyleError Expansion :=
  (resolver store limit).visit

end Resolution

/-- The merged payload of a context. A name without rules contributes nothing; where it is the name
of a mixin, it still needs room on the path. -/
def RuleStore.resolve (store : RuleStore) (limit : Nat) (context : Context) :
    Except StyleError ResolvedPayload :=
  (Resolution.visit store limit limit [] context ∅).map Expansion.payload

end Cascade
