import Cascade.OrderedMap.Lemmas
import Cascade.Proofs.Listing
import Cascade.Proofs.Success
import Cascade.Resolution.Cache
import Mathlib.Data.List.Nodup
set_option autoImplicit false

/-! Resolution with a memory answers what resolution without one answers. Each remembered expansion
is the expansion of its rule, said without a path or a limit. Where it fits into the limit, a rule
that is expanded anew meets neither a cycle nor the limit, and comes to the same expansion. -/

namespace Cascade

/-! ### The expansion of a rule -/

/-- What a rule contributes to a context: its own payload, then all that its mixins list, and the
length of the longest chain of mixins below it. -/
structure Expansion.IsOf (store : RuleStore) (context : Context) (rule : Rule)
    (expansion : Expansion) : Prop where
  payload : ∃ nested : String → List ResolvedPayload,
    (∀ name ∈ rule.payload.mixins, Listing store (context.forMixin name) (nested name)) ∧
      expansion.payload = rule.ownPayload.mergeAll (rule.payload.mixins.flatMap nested)
  depth : LongestChain (store.Refers context) (· ∈ rule.payload.mixins) expansion.depth

namespace Expansion.IsOf

variable {store : RuleStore} {limit room : Nat} {path : List String} {context : Context}
  {rule : Rule} {expansion other : Expansion}

theorem unique (first : expansion.IsOf store context rule)
    (second : other.IsOf store context rule) : expansion = other := by
  obtain ⟨nested, listings, merged⟩ := first.payload
  obtain ⟨others, otherListings, otherMerged⟩ := second.payload
  have samePayload : expansion.payload = other.payload := by
    rw [merged, otherMerged]
    congr 1
    apply List.flatMap_congr
    intro name listed
    exact (listings name listed).unique (otherListings name listed)
  have sameDepth : expansion.depth = other.depth := first.depth.unique second.depth
  cases expansion
  cases other
  cases samePayload
  cases sameDepth
  rfl

/-- An expansion that succeeds, wherever it is made, is the expansion of the rule. -/
theorem of_expandRule
    (expanded : expandRule (Resolution.enter store limit room path context) rule = .ok expansion) :
    expansion.IsOf store context rule := by
  have follows := Resolution.follows_enter store limit room path context
  obtain ⟨nested, chosen⟩ := Listing.exists_nested store context
  refine ⟨⟨nested, fun name listed => ?_, ?_⟩, ?_⟩
  · obtain ⟨payload, grown, entered, _⟩ := (expandRule_depth expanded).1 name listed
    obtain ⟨listing, isListing, _⟩ := follows name payload grown entered
    rw [chosen name listing isListing]
    exact isListing
  · exact Resolution.payload_expandRule nested chosen follows expanded
  · exact (Resolution.longestChain_of_expandRule
      (Resolution.measures_enter store limit room path context) expanded).1

/-- Where the chains below a rule fit, its expansion is found again. -/
theorem expandRule_eq (isOf : expansion.IsOf store context rule)
    (leads : Resolution.LeadsTo store path context) (matching : rule ∈ store.matching context)
    (fits : expansion.depth ≤ room) :
    expandRule (Resolution.enter store limit room path context) rule = .ok expansion := by
  have succeeds : ∃ found,
      expandRule (Resolution.enter store limit room path context) rule = .ok found :=
    Resolution.expandRule_succeeds leads matching (isOf.depth.within.mono fits)
  obtain ⟨found, expanded⟩ := succeeds
  rw [expanded, (of_expandRule expanded).unique isOf]

end Expansion.IsOf

/-! ### What is remembered -/

/-- No two rules that can match one context have the same id. -/
def RuleStore.IdsDistinct (store : RuleStore) : Prop :=
  ∀ name, ((store.rulesAnchoredAt name).map Rule.id).Nodup

theorem RuleStore.IdsDistinct.eq_of_matching {store : RuleStore} (distinct : store.IdsDistinct)
    {context : Context} {rule other : Rule} (matching : rule ∈ store.matching context)
    (otherMatching : other ∈ store.matching context) (same : rule.id = other.id) : rule = other :=
  List.inj_on_of_nodup_map (distinct context.name) (List.mem_of_mem_filter matching)
    (List.mem_of_mem_filter otherMatching) same

namespace ResolutionCache

/-- Every remembered expansion is that of a rule with mixins that matches the context. -/
def Remembers (cache : ResolutionCache) (store : RuleStore) : Prop :=
  ∀ id context expansion, cache.getExpansion? id context = some expansion →
    ∃ rule ∈ store.matching context,
      rule.id = id ∧ rule.payload.mixins ≠ [] ∧ expansion.IsOf store context rule

variable {store : RuleStore} {cache : ResolutionCache}

theorem remembers_of_empty (empty : cache.expansions = ∅) : cache.Remembers store := by
  intro id context expansion found
  rw [getExpansion?, empty] at found
  cases found

theorem getExpansion?_putExpansion {id other : RuleId} {context otherContext : Context}
    {expansion found : Expansion}
    (held :
      (cache.putExpansion id context expansion).getExpansion? other otherContext = some found) :
    (other = id ∧ otherContext = context ∧ found = expansion) ∨
      cache.getExpansion? other otherContext = some found := by
  unfold getExpansion? putExpansion at held
  rcases OrderedMap.new_or_old held with ⟨same, rfl⟩ | before
  · cases same
    exact Or.inl ⟨rfl, rfl, rfl⟩
  · exact Or.inr before

theorem get?_put {context other : Context} {issued found : IssuedPayload}
    (held : (cache.put context issued).get? other = some found) :
    (other = context ∧ found = issued) ∨ cache.get? other = some found := by
  unfold get? put at held
  rcases OrderedMap.new_or_old held with ⟨rfl, rfl⟩ | before
  · exact Or.inl ⟨rfl, rfl⟩
  · exact Or.inr before

theorem Remembers.putExpansion (remembers : cache.Remembers store) {context : Context} {rule : Rule}
    {expansion : Expansion} (matching : rule ∈ store.matching context)
    (hasMixins : rule.payload.mixins ≠ []) (isOf : expansion.IsOf store context rule) :
    (cache.putExpansion rule.id context expansion).Remembers store := by
  intro id otherContext found held
  rcases getExpansion?_putExpansion held with ⟨sameId, sameContext, sameExpansion⟩ | before
  · rw [sameId, sameContext, sameExpansion]
    exact ⟨rule, matching, rfl, hasMixins, isOf⟩
  · exact remembers id otherContext found before

/-- How a cache may differ after a resolution: only in the expansions, and only in sound ones. -/
structure After (store : RuleStore) (before after : ResolutionCache) : Prop where
  remembers : after.Remembers store
  generation : after.generation = before.generation
  capacity : after.capacity = before.capacity
  contexts : after.contexts = before.contexts

theorem After.putExpansion {before : ResolutionCache} (kept : After store before cache)
    {context : Context} {rule : Rule} {expansion : Expansion}
    (matching : rule ∈ store.matching context) (hasMixins : rule.payload.mixins ≠ [])
    (isOf : expansion.IsOf store context rule) :
    After store before (cache.putExpansion rule.id context expansion) :=
  ⟨kept.remembers.putExpansion matching hasMixins isOf, kept.generation, kept.capacity,
    kept.contexts⟩

end ResolutionCache

end Cascade
