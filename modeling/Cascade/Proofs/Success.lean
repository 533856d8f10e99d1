import Cascade.Proofs.Expansion
import Cascade.Proofs.References
set_option autoImplicit false

/-! When a resolution succeeds. Cycles and depth are checked against the path on the way, but
together the two checks come to one condition that knows of no path: no chain of mixins is longer
than the limit. The depth of the outcome is the length of the longest chain. -/

namespace Cascade

open Relation (ReflTransGen TransGen)

namespace RuleStore

variable {store : RuleStore} {context : Context} {length : Nat}

theorem longestChain_of_rules
    (parts : ∀ rule ∈ store.matching context, ∃ below,
      LongestChain (store.Refers context) (· ∈ rule.payload.mixins) below ∧ below ≤ length)
    (attained : length = 0 ∨ ∃ rule ∈ store.matching context,
      LongestChain (store.Refers context) (· ∈ rule.payload.mixins) length) :
    LongestChain (store.Refers context) (store.Refers context context.name) length := by
  constructor
  · intro names chain
    cases names with
    | nil => exact Nat.zero_le length
    | cons first rest =>
        obtain ⟨isReferred, continued⟩ := (chain_cons_iff first rest).mp chain
        obtain ⟨rule, matching, listed⟩ := (refers_name_iff first).mp isReferred
        obtain ⟨below, longest, bounded⟩ := parts rule matching
        have short := longest.within (first :: rest)
          ((chain_cons_iff first rest).mpr ⟨listed, continued⟩)
        exact Nat.le_trans short bounded
  · rcases attained with none | ⟨rule, matching, longest⟩
    · exact ⟨[], chain_nil, none.symm⟩
    · obtain ⟨names, chain, long⟩ := longest.attained
      refine ⟨names, ⟨fun first isFirst => ?_, chain.links⟩, long⟩
      exact (refers_name_iff first).mpr ⟨rule, matching, chain.head first isFirst⟩

end RuleStore

namespace Resolution

variable {store : RuleStore} {limit room : Nat} {path : List String} {context : Context}
  {payload : ResolvedPayload} {rule : Rule} {result : Expansion}

/-! ### Depth -/

def Measures (store : RuleStore) (context : Context) (room : Nat)
    (enter : String → ResolvedPayload → Except StyleError Expansion) : Prop :=
  ∀ name payload result, enter name payload = .ok result →
    LongestChain (store.Refers context) (store.Refers context name) result.depth ∧
      result.depth + 1 ≤ room

theorem longestChain_of_expandRule
    (measures : Measures store context room (enter store limit room path context))
    (expanded : Expansion.expandRule (enter store limit room path context) rule = .ok result) :
    LongestChain (store.Refers context) (· ∈ rule.payload.mixins) result.depth ∧
      result.depth ≤ room := by
  obtain ⟨parts, attained⟩ := Expansion.expandRule_depth expanded
  refine ⟨longestChain_of_parts ?_ ?_, ?_⟩
  · intro name listed
    obtain ⟨payload, nested, entered, bounded⟩ := parts name listed
    exact ⟨nested.depth, (measures name payload nested entered).1, bounded⟩
  · rcases attained with none | ⟨name, listed, payload, nested, entered, same⟩
    · exact Or.inl none
    · exact Or.inr ⟨name, listed, nested.depth, (measures name payload nested entered).1, same⟩
  · rcases attained with none | ⟨name, _, payload, nested, entered, same⟩
    · omega
    · have fits := (measures name payload nested entered).2
      omega

theorem longestChain_of_mergeRules
    (measures : Measures store context room (enter store limit room path context))
    (visited : visit store limit room path context payload = .ok result) :
    LongestChain (store.Refers context) (store.Refers context context.name) result.depth ∧
      result.depth ≤ room := by
  rw [visit_eq] at visited
  obtain ⟨parts, attained⟩ := Expansion.mergeRules_depth visited
  refine ⟨RuleStore.longestChain_of_rules ?_ ?_, ?_⟩
  · intro rule matching
    obtain ⟨contribution, expanded, bounded⟩ := parts rule matching
    exact ⟨contribution.depth, (longestChain_of_expandRule measures expanded).1, bounded⟩
  · rcases attained with none | ⟨rule, matching, contribution, expanded, same⟩
    · exact Or.inl none
    · rw [same]
      exact Or.inr ⟨rule, matching, (longestChain_of_expandRule measures expanded).1⟩
  · rcases attained with none | ⟨rule, _, contribution, expanded, same⟩
    · omega
    · rw [same]
      exact (longestChain_of_expandRule measures expanded).2

theorem measures_enter (store : RuleStore) (limit room : Nat) (path : List String)
    (context : Context) : Measures store context room (enter store limit room path context) := by
  induction room generalizing path context with
  | zero =>
      intro name payload result entered
      obtain ⟨_, left, impossible, _⟩ := (enter_eq_ok_iff name payload result).mp entered
      cases impossible
  | succ left ih =>
      intro name payload result entered
      obtain ⟨_, before, same, visited⟩ := (enter_eq_ok_iff name payload result).mp entered
      cases same
      have measured :=
        longestChain_of_mergeRules (ih (path ++ [name]) (context.forMixin name)) visited
      exact ⟨measured.1, Nat.succ_le_succ measured.2⟩

theorem longestChain_of_visit
    (visited : visit store limit room path context payload = .ok result) :
    LongestChain (store.Refers context) (store.Refers context context.name) result.depth ∧
      result.depth ≤ room :=
  longestChain_of_mergeRules (measures_enter store limit room path context) visited

/-! ### Success -/

/-- Every name on the path leads to the context under resolution. -/
def LeadsTo (store : RuleStore) (path : List String) (context : Context) : Prop :=
  ∀ earlier ∈ path, ReflTransGen (store.Refers context) earlier context.name

theorem leadsTo_nil : LeadsTo store [] context :=
  fun _ inside => absurd inside List.not_mem_nil

theorem LeadsTo.forMixin (leads : LeadsTo store path context) {name : String}
    (refers : store.Refers context context.name name) :
    LeadsTo store (path ++ [name]) (context.forMixin name) := by
  intro earlier inside
  rw [RuleStore.refers_forMixin, Context.name_forMixin]
  rcases List.mem_append.mp inside with before | last
  · exact (leads earlier before).tail refers
  · rw [List.mem_singleton.mp last]

/-- With room for all chains below a rule, its expansion meets neither a cycle nor the limit. A name
that is on the path already would lead back to itself, so that the chains below were endless. -/
theorem expandRule_succeeds (leads : LeadsTo store path context)
    (matching : rule ∈ store.matching context)
    (within : ChainsWithin (store.Refers context) (· ∈ rule.payload.mixins) room) :
    ∃ result, Expansion.expandRule (enter store limit room path context) rule = .ok result := by
  induction room generalizing path context rule with
  | zero =>
      apply Expansion.expandRule_exists
      intro name listed payload
      obtain ⟨left, impossible, _⟩ := chainsWithin_iff.mp within name listed
      cases impossible
  | succ left ih =>
      apply Expansion.expandRule_exists
      intro name listed payload
      have refers : store.Refers context context.name name :=
        (RuleStore.refers_name_iff name).mpr ⟨rule, matching, listed⟩
      -- No check of the path is needed: with bounded chains a name cannot come back to it.
      have fresh : name ∉ path := by
        intro repeated
        exact within.acyclic listed (TransGen.tail' (leads name repeated) refers)
      have below := chainsWithin_succ_iff.mp within name listed
      have succeeds : ∃ nested,
          visit store limit left (path ++ [name]) (context.forMixin name) payload = .ok nested := by
        rw [visit_eq]
        apply Expansion.mergeRules_exists
        intro next nextMatching
        refine ih (leads.forMixin refers) nextMatching ?_
        refine below.of_starts fun other otherListed => ?_
        exact (RuleStore.refers_name_iff other).mpr ⟨next, nextMatching, otherListed⟩
      obtain ⟨nested, visited⟩ := succeeds
      exact ⟨nested, (enter_eq_ok_iff name payload nested).mpr ⟨fresh, left, rfl, visited⟩⟩

theorem visit_succeeds (leads : LeadsTo store path context)
    (within : ChainsWithin (store.Refers context) (store.Refers context context.name) room)
    (payload : ResolvedPayload) :
    ∃ result, visit store limit room path context payload = .ok result := by
  rw [visit_eq]
  apply Expansion.mergeRules_exists
  intro rule matching
  refine expandRule_succeeds leads matching (within.of_starts fun name listed => ?_)
  exact (RuleStore.refers_name_iff name).mpr ⟨rule, matching, listed⟩

end Resolution

namespace RuleStore

variable {store : RuleStore} {limit : Nat} {context : Context}

theorem resolve_succeeds_iff :
    (∃ payload, store.resolve limit context = .ok payload) ↔
      ChainsWithin (store.Refers context) (store.Refers context context.name) limit := by
  constructor
  · rintro ⟨payload, resolved⟩
    obtain ⟨expansion, visited, _⟩ := resolve_eq_ok_iff.mp resolved
    obtain ⟨longest, fits⟩ := Resolution.longestChain_of_visit visited
    exact longest.within.mono fits
  · intro within
    obtain ⟨expansion, visited⟩ := Resolution.visit_succeeds Resolution.leadsTo_nil within ∅
    exact ⟨expansion.payload, resolve_eq_ok_iff.mpr ⟨expansion, visited, rfl⟩⟩

theorem chainsWithin_refers_iff :
    ChainsWithin (store.Refers context) (store.Refers context context.name) limit ↔
      ∀ names, (context.name :: names).IsChain (store.Refers context) → names.length ≤ limit := by
  unfold ChainsWithin
  simp only [chain_refers_iff]

/-- A circle of references that the context reaches is an error under every limit. -/
theorem resolve_fails_of_repeat {names : List String}
    (links : (context.name :: names).IsChain (store.Refers context))
    (repeats : ¬(context.name :: names).Nodup) :
    ∃ problem, store.resolve limit context = .error problem := by
  cases outcome : store.resolve limit context with
  | error problem => exact ⟨problem, rfl⟩
  | ok payload =>
      have within := resolve_succeeds_iff.mp ⟨payload, outcome⟩
      refine absurd (nodup_of_acyclic links fun name inside => ?_) repeats
      exact within.acyclic_of_refers (reaches_of_isChain links inside)

/-- Mixins that several branches share, or that are listed twice, add no condition: a context
resolves as soon as each mixin that it refers to resolves with one step less. -/
theorem resolve_succ_succeeds_iff :
    (∃ payload, store.resolve (limit + 1) context = .ok payload) ↔
      ∀ name, store.Refers context context.name name →
        ∃ payload, store.resolve limit (context.forMixin name) = .ok payload := by
  simp only [resolve_succeeds_iff, chainsWithin_succ_iff, refers_forMixin, Context.name_forMixin]

/-- Resolution succeeds exactly if no chain of references is longer than the limit. So a circle
always fails, while names that are merely shared do no harm. -/
theorem resolve_ok_iff_chains_within_limit (store : RuleStore) (limit : Nat) (context : Context) :
    ((∃ payload, store.resolve limit context = .ok payload) ↔
      ∀ names, (context.name :: names).IsChain (store.Refers context) → names.length ≤ limit) ∧
    (∀ names, (context.name :: names).IsChain (store.Refers context) →
      ¬(context.name :: names).Nodup →
        ∃ problem, store.resolve limit context = .error problem) ∧
    ((∃ payload, store.resolve (limit + 1) context = .ok payload) ↔
      ∀ name, store.Refers context context.name name →
        ∃ payload, store.resolve limit (context.forMixin name) = .ok payload) :=
  ⟨resolve_succeeds_iff.trans chainsWithin_refers_iff,
    fun _ links repeats => resolve_fails_of_repeat links repeats, resolve_succ_succeeds_iff⟩

end RuleStore

end Cascade
