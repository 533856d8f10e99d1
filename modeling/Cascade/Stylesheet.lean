import Cascade.Config
import Cascade.Resolution.Cache
set_option autoImplicit false

/-! Stylesheets: a rule store with a configuration, a cache, and a generation that counts the
changes of the rule set. Several handles may share one: what is done through one of them is seen
through all. -/

namespace Cascade

structure Stylesheet where
  store : RuleStore
  /-- How often the rule set was changed. The count is unbounded here; in a word of 64 bits it is
  the same as long as there were fewer than `2 ^ 64` changes. -/
  generation : Nat
  config : EngineConfig
  cache : ResolutionCache
  /-- How many payloads were issued: the number of the next one that is built. -/
  issued : Nat

namespace Stylesheet

def ofConfig (config : EngineConfig) : Stylesheet :=
  ⟨∅, 0, config, .ofCapacity config.maxCacheEntries, 0⟩

def ruleCount (sheet : Stylesheet) : Nat := sheet.store.size

def rulesAnchoredAt (sheet : Stylesheet) (name : String) : List Rule :=
  sheet.store.rulesAnchoredAt name

/-- Takes over a changed rule set: a new generation with nothing in the cache. -/
def withStore (sheet : Stylesheet) (store : RuleStore) : Stylesheet :=
  { sheet with store, generation := sheet.generation + 1, cache := sheet.cache.clear }

def readSelector (text : String) : Except StyleError Selector :=
  (Selector.parse text).mapError (StyleError.selector text)

def insertRule (sheet : Stylesheet) (text : String) (payload : RulePayload) (rank : Rank) :
    Except StyleError InsertOutcome × Stylesheet :=
  match readSelector text with
  | .error problem => (.error problem, sheet)
  | .ok selector =>
      let (outcome, store) := sheet.store.insert selector payload rank
      (.ok outcome, sheet.withStore store)

/-- Reads the selectors of all rules; the first that is malformed is the problem. -/
def readRules : List (String × RulePayload) → Except StyleError (List (Selector × RulePayload))
  | [] => .ok []
  | (text, payload) :: rest =>
      match readSelector text with
      | .error problem => .error problem
      | .ok selector => (readRules rest).map ((selector, payload) :: ·)

/-- Adds rules of one rank in order, as one change. Unless every selector is well formed, and
also when there are no rules, nothing changes. -/
def insertRules (sheet : Stylesheet) (rules : List (String × RulePayload)) (rank : Rank) :
    Except StyleError Unit × Stylesheet :=
  match readRules rules with
  | .error problem => (.error problem, sheet)
  | .ok [] => (.ok (), sheet)
  | .ok parsed =>
      let store := parsed.foldl (fun store rule => (store.insert rule.1 rule.2 rank).2) sheet.store
      (.ok (), sheet.withStore store)

/-- A payload that was just built, under a number of its own. -/
def issue (sheet : Stylesheet) (payload : ResolvedPayload) : IssuedPayload × Stylesheet :=
  (⟨sheet.issued, payload⟩, { sheet with issued := sheet.issued + 1 })

/-- The merged payload of the rules for a context. With the cache turned on, the same object is
answered again while the rule set does not change and the cache keeps it. -/
def resolve (sheet : Stylesheet) (context : Context) :
    Except StyleError IssuedPayload × Stylesheet :=
  let limit := sheet.config.maxMixinDepth
  if sheet.config.cacheEnabled then
    let cache := sheet.cache.sync sheet.generation
    match cache.get? context with
    | some hit => (.ok hit, { sheet with cache })
    | none =>
        match sheet.store.resolveWith cache limit context with
        | (.error problem, cache) => (.error problem, { sheet with cache })
        | (.ok payload, cache) =>
            let (built, sheet) := { sheet with cache }.issue payload
            let cache := cache.sync sheet.generation
            -- A payload that the cache has for the context by now goes before the one just built.
            match cache.get? context with
            | some hit => (.ok hit, { sheet with cache })
            | none => (.ok built, { sheet with cache := cache.put context built })
  else
    match sheet.store.resolve limit context with
    | .error problem => (.error problem, sheet)
    | .ok payload =>
        let (built, sheet) := sheet.issue payload
        (.ok built, sheet)

def getProps (sheet : Stylesheet) (context : Context) (own : Option PropMap) :
    Except StyleError PropMap × Stylesheet :=
  let (result, sheet) := sheet.resolve context
  (result.map fun resolved => resolved.payload.mergeOwn own, sheet)

def getPropsForPath (sheet : Stylesheet) (path : String) (own : Option PropMap) :
    Except StyleError PropMap × Stylesheet :=
  match Context.parse path with
  | .error problem => (.error problem, sheet)
  | .ok context => sheet.getProps context own

end Stylesheet

/-! ### Shared stylesheets -/

/-- Handles are numbered from zero; there is one at least. -/
structure SharedStylesheet where
  sheet : Stylesheet
  others : Nat := 0

namespace SharedStylesheet

def handleCount (shared : SharedStylesheet) : Nat := shared.others + 1

def clone (shared : SharedStylesheet) : Nat × SharedStylesheet :=
  (shared.handleCount, { shared with others := shared.others + 1 })

def through {α : Type} (shared : SharedStylesheet) (handle : Nat)
    (operation : Stylesheet → α × Stylesheet) : Option (α × SharedStylesheet) :=
  if handle < shared.handleCount then
    let (answer, sheet) := operation shared.sheet
    some (answer, { shared with sheet })
  else none

end SharedStylesheet

end Cascade
