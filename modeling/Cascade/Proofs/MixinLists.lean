import Cascade.OrderedMap.Lemmas
import Cascade.Proofs.Outcomes
set_option autoImplicit false

/-! Stores whose rules list other mixins, while all else about the rules stays as it is. The same
rules match then, and a resolution differs only in the mixins that it enters. -/

namespace Cascade

namespace OrderedMap

variable {κ α β : Type}

def mapValues (map : OrderedMap κ α) (change : α → β) : OrderedMap κ β :=
  ⟨map.entries.map fun entry => (entry.1, change entry.2)⟩

theorem get?_mapValues [DecidableEq κ] (map : OrderedMap κ α) (change : α → β) (key : κ) :
    (map.mapValues change).get? key = (map.get? key).map change := by
  obtain ⟨entries⟩ := map
  induction entries with
  | nil => rfl
  | cons entry rest ih =>
      by_cases here : entry.1 = key
      · simp [get?, mapValues, lookup, here]
      · simp only [get?, mapValues, List.map_cons, lookup, if_neg here] at ih ⊢
        exact ih

end OrderedMap

/-- The same rule with another list of mixins. -/
def Rule.mapMixins (rule : Rule) (change : List String → List String) : Rule :=
  { rule with payload := { rule.payload with mixins := change rule.payload.mixins } }

namespace RuleStore

def mapMixins (store : RuleStore) (change : List String → List String) : RuleStore :=
  { store with buckets := store.buckets.mapValues fun rules =>
      rules.map fun rule => rule.mapMixins change }

variable {store : RuleStore} {context : Context}

theorem rulesAnchoredAt_mapMixins (store : RuleStore) (change : List String → List String)
    (name : String) : (store.mapMixins change).rulesAnchoredAt name =
      (store.rulesAnchoredAt name).map fun rule => rule.mapMixins change := by
  rw [rulesAnchoredAt, rulesAnchoredAt, mapMixins, OrderedMap.get?_mapValues]
  cases store.buckets.get? name with
  | none => rfl
  | some bucket => rfl

theorem matching_mapMixins (store : RuleStore) (change : List String → List String)
    (context : Context) : (store.mapMixins change).matching context =
      (store.matching context).map fun rule => rule.mapMixins change := by
  rw [matching, matching, rulesAnchoredAt_mapMixins, List.filter_map]
  rfl

theorem refers_mapMixins_iff (store : RuleStore) (change : List String → List String)
    (name mixin : String) : (store.mapMixins change).Refers context name mixin ↔
      ∃ rule ∈ store.rulesAnchoredAt name,
        rule.matches (context.forMixin name) = true ∧ mixin ∈ change rule.payload.mixins := by
  rw [Refers, rulesAnchoredAt_mapMixins]
  simp only [List.mem_map, exists_exists_and_eq_and]
  rfl

end RuleStore

/-! ### Lists with fewer mixins -/

/-- Enters the mixins that are kept, and passes over the others. -/
def Expansion.enterKept (keep : String → Bool)
    (enter : String → ResolvedPayload → Except StyleError ResolvedPayload) (name : String)
    (merged : ResolvedPayload) : Except StyleError ResolvedPayload :=
  if keep name then enter name merged else .ok merged

theorem Resolution.visitPayload_filterMixins (store : RuleStore) (keep : String → Bool)
    (limit room : Nat) (path : List String) (context : Context) (payload : ResolvedPayload) :
    let fewer := store.mapMixins (List.filter keep)
    visitPayload fewer limit room path context payload =
      (store.matching context).foldlM (Expansion.contribute
        (Expansion.enterKept keep (enterPayload fewer limit room path context))) payload := by
  intro fewer
  rw [visitPayload_eq, RuleStore.matching_mapMixins, List.foldlM_map]
  congr 1
  funext before rule
  exact congrArg _ List.foldlM_filter

end Cascade
