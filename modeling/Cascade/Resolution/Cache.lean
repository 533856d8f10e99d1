import Cascade.Resolution.Basic
set_option autoImplicit false

/-! The resolution cache, which is valid for one generation of the rule set, and resolution with it.
The cache has two tables of equal capacity: resolutions by context, and expansions of rules with
mixins by rule and context. A table that would grow beyond its capacity is emptied first. -/

namespace Cascade

/-- A resolved payload as an object of its own: equal numbers mean the very same object. -/
structure IssuedPayload where
  number : Nat
  payload : ResolvedPayload

structure ResolutionCache where
  /-- The generation of the rule set that the entries belong to, counted without a bound. With words
  of 64 bits it is the same as long as there were fewer than `2 ^ 64` changes. -/
  generation : Nat
  capacity : Nat
  contexts : OrderedMap Context IssuedPayload
  expansions : OrderedMap (RuleId × Context) Expansion

namespace ResolutionCache

/-- An empty cache. Its tables hold one entry at least. -/
def ofCapacity (capacity : Nat) : ResolutionCache := ⟨0, max capacity 1, ∅, ∅⟩

def clear (cache : ResolutionCache) : ResolutionCache :=
  { cache with contexts := ∅, expansions := ∅ }

/-- Drops all entries if they belong to another generation. -/
def sync (cache : ResolutionCache) (generation : Nat) : ResolutionCache :=
  if cache.generation = generation then cache else { cache.clear with generation }

def get? (cache : ResolutionCache) (context : Context) : Option IssuedPayload :=
  cache.contexts.get? context

/-- Stores a resolution. A full table is emptied, unless it has the context already. -/
def put (cache : ResolutionCache) (context : Context) (payload : IssuedPayload) :
    ResolutionCache :=
  let full := cache.capacity ≤ cache.contexts.size && !cache.contexts.contains context
  let kept := if full then ∅ else cache.contexts
  { cache with contexts := kept.insert context payload }

def getExpansion? (cache : ResolutionCache) (rule : RuleId) (context : Context) :
    Option Expansion :=
  cache.expansions.get? (rule, context)

/-- Stores an expansion. A full table is emptied, whatever it has. -/
def putExpansion (cache : ResolutionCache) (rule : RuleId) (context : Context)
    (expansion : Expansion) : ResolutionCache :=
  let kept := if cache.capacity ≤ cache.expansions.size then ∅ else cache.expansions
  { cache with expansions := kept.insert (rule, context) expansion }

def size (cache : ResolutionCache) : Nat := cache.contexts.size

def isEmpty (cache : ResolutionCache) : Bool :=
  cache.contexts.isEmpty && cache.expansions.isEmpty

end ResolutionCache

/-! ### Resolution with a memory

Expansions of rules with mixins are looked up and stored in a cache. A remembered expansion counts
only where the chain of mixins below it still fits into the depth limit; everywhere else the rule is
expanded anew, so that the error is found. -/

/-- Computations that use a cache. What they stored stays stored when they fail. -/
abbrev Memoized (α : Type) : Type := ExceptT StyleError (StateM ResolutionCache) α

namespace Memoized

/-- A remembered expansion of the rule that may be used at a path of as many names. -/
def remembered? (rule : Rule) (context : Context) (limit pathLength : Nat) :
    Memoized (Option Expansion) := do
  let cache ← getThe ResolutionCache
  return (cache.getExpansion? rule.id context).filter fun hit => pathLength + hit.depth ≤ limit

def remember (rule : Rule) (context : Context) (expansion : Expansion) : Memoized Unit :=
  modifyThe ResolutionCache (·.putExpansion rule.id context expansion)

def expandRule (limit pathLength : Nat) (context : Context)
    (enter : String → ResolvedPayload → Memoized Expansion) (rule : Rule) :
    Memoized Expansion := do
  match ← remembered? rule context limit pathLength with
  | some hit => return hit
  | none =>
      let expansion ← Expansion.expandRule enter rule
      remember rule context expansion
      return expansion

def resolver (store : RuleStore) (limit : Nat) : Resolver Memoized :=
  ⟨store, limit, expandRule limit⟩

end Memoized

/-- The merged payload of a context, and the cache afterwards. The cache must be in sync with
the store. -/
def RuleStore.resolveWith (store : RuleStore) (cache : ResolutionCache) (limit : Nat)
    (context : Context) : Except StyleError ResolvedPayload × ResolutionCache :=
  let (result, after) := ((Memoized.resolver store limit).visit limit [] context ∅).run.run cache
  (result.map Expansion.payload, after)

end Cascade
