import Cascade.Proofs.Evidence
import Cascade.Proofs.Outcomes
import Mathlib.Data.Finset.Card
set_option autoImplicit false

/-! Resolutions under different limits. Main statement: what is found under one limit, a payload or
a circle, is found under every higher one. A limit with room for every name that is listed as a
mixin is never exceeded, so that from there on the limit plays no part. -/

namespace Cascade

/-! ### Higher limits -/

def StyleError.ExceedsLimit (problem : StyleError) : Prop :=
  ∃ name limit, problem = .mixinDepthExceeded name limit

namespace Resolution

variable {store : RuleStore} {limit higher room more : Nat} {path : List String} {context : Context}

theorem persists_visitPayload (above : room ≤ more) (payload : ResolvedPayload) :
    Persists StyleError.ExceedsLimit (visitPayload store limit room path context payload)
      (visitPayload store higher more path context payload) := by
  induction room using Nat.strongRecOn generalizing more path context payload with
  | ind room ih =>
      rw [visitPayload_eq, visitPayload_eq]
      apply Persists.foldlM_matching
      intro name _ merged
      apply Persists.enterPayload above fun _ => .inl ⟨name, limit, rfl⟩
      intro left further isLeft isFurther
      exact ih left (by omega) (by omega) merged

end Resolution

namespace RuleStore

variable {store : RuleStore} {lower higher limit : Nat} {context : Context}

theorem resolve_eq_of_not_exceeded (above : lower ≤ higher)
    (never : ∀ name bound, store.resolve lower context ≠ .error (.mixinDepthExceeded name bound)) :
    store.resolve higher context = store.resolve lower context := by
  rw [resolve_eq_visitPayload, resolve_eq_visitPayload]
  apply Resolution.persists_visitPayload above
  rintro problem failed ⟨name, bound, rfl⟩
  exact never name bound failed

theorem resolve_ok_mono (above : lower ≤ higher) {payload : ResolvedPayload}
    (resolved : store.resolve lower context = .ok payload) :
    store.resolve higher context = .ok payload := by
  rw [← resolved]
  apply resolve_eq_of_not_exceeded above
  intro name bound impossible
  rw [resolved] at impossible
  cases impossible

theorem resolve_cyclic_mono (above : lower ≤ higher) {chain : List String}
    (failed : store.resolve lower context = .error (.cyclicMixin chain)) :
    store.resolve higher context = .error (.cyclicMixin chain) := by
  rw [← failed]
  apply resolve_eq_of_not_exceeded above
  intro name bound impossible
  rw [failed] at impossible
  cases impossible

/-! ### Limits that cannot be reached -/

/-- The names that some rule of the store lists as mixins. -/
def mixinNames (store : RuleStore) : Finset String :=
  (store.rules.flatMap fun rule => rule.payload.mixins).toFinset

theorem mem_rules_of_anchored {rule : Rule} {name : String}
    (anchored : rule ∈ store.rulesAnchoredAt name) : rule ∈ store.rules := by
  rw [rulesAnchoredAt] at anchored
  cases found : store.buckets.get? name with
  | none =>
      rw [found] at anchored
      cases anchored
  | some bucket =>
      rw [found] at anchored
      have held := OrderedMap.mem_of_lookup found
      exact List.mem_flatten.mpr ⟨bucket, List.mem_map_of_mem held, anchored⟩

theorem mem_mixinNames_of_refers {name mixin : String} (refers : store.Refers context name mixin) :
    mixin ∈ store.mixinNames := by
  obtain ⟨rule, anchored, _, listed⟩ := refers
  exact List.mem_toFinset.mpr (List.mem_flatMap.mpr ⟨rule, mem_rules_of_anchored anchored, listed⟩)

theorem length_le_card_mixinNames {origin : String} {names : List String} (distinct : names.Nodup)
    (links : (origin :: names).IsChain (store.Refers context)) :
    names.length ≤ store.mixinNames.card := by
  rw [← List.toFinset_card_of_nodup distinct]
  apply Finset.card_le_card
  intro name inside
  obtain ⟨earlier, refers⟩ := exists_refers_of_isChain links (List.mem_toFinset.mp inside)
  exact mem_mixinNames_of_refers refers

/-- A limit is exceeded by one name more than it allows, and all of them are different. -/
theorem lt_card_of_exceeded {name : String} {bound : Nat}
    (failed : store.resolve limit context = .error (.mixinDepthExceeded name bound)) :
    limit < store.mixinNames.card := by
  cases explains_of_resolve failed with
  | mixinDepthExceeded distinct links fresh full =>
      have longer := length_le_card_mixinNames (List.concat_eq_append ▸ distinct.concat fresh) links
      rw [List.length_append, List.length_singleton, full] at longer
      exact longer

theorem resolve_within_mixinNames (enough : store.mixinNames.card ≤ limit) :
    (∃ payload, store.resolve limit context = .ok payload) ∨
      ∃ chain, store.resolve limit context = .error (.cyclicMixin chain) := by
  cases outcome : store.resolve limit context with
  | ok payload => exact .inl ⟨payload, rfl⟩
  | error problem =>
      cases explains_of_resolve outcome with
      | cyclicMixin => exact .inr ⟨_, rfl⟩
      | mixinDepthExceeded => exact absurd enough (Nat.not_le_of_lt (lt_card_of_exceeded outcome))

/-- A higher limit keeps a payload and keeps a circle. With room for all the names that are listed
as mixins there is one or the other, and no higher limit changes which. -/
theorem higher_limits_keep_outcomes (store : RuleStore) (context : Context) :
    (∀ lower higher, lower ≤ higher →
      (∀ payload, store.resolve lower context = .ok payload →
        store.resolve higher context = .ok payload) ∧
      ∀ chain, store.resolve lower context = .error (.cyclicMixin chain) →
        store.resolve higher context = .error (.cyclicMixin chain)) ∧
    ∀ limit, store.mixinNames.card ≤ limit →
      ((∃ payload, store.resolve limit context = .ok payload) ∨
        ∃ chain, store.resolve limit context = .error (.cyclicMixin chain)) ∧
      store.resolve limit context = store.resolve store.mixinNames.card context := by
  refine ⟨?_, ?_⟩
  · intro lower higher above
    exact ⟨fun payload => resolve_ok_mono above, fun chain => resolve_cyclic_mono above⟩
  · intro limit enough
    refine ⟨resolve_within_mixinNames enough, ?_⟩
    apply resolve_eq_of_not_exceeded enough
    intro name bound failed
    exact Nat.lt_irrefl _ (lt_card_of_exceeded failed)

end RuleStore

/-! A sheet of two rules: headings are bold, and what that means. -/

namespace Sample

def boldHeading : RuleStore := .ofInsertions [refersTo "Heading" ["bold"],
  ⟨⟨[], ⟨"bold", []⟩⟩, ⟨none, some ⟨[("weight", .int 700)]⟩, []⟩, .default⟩]

end Sample

namespace RuleStore

open Sample (boldHeading circle heading)

/-- Two names are listed in the circle. With room for one, the limit is reached before the circle is
closed. -/
theorem heading_under_higher_limits :
    boldHeading.resolve 1 heading = .ok ⟨none, some ⟨[("weight", .int 700)]⟩⟩ ∧
      boldHeading.resolve 1000 heading = .ok ⟨none, some ⟨[("weight", .int 700)]⟩⟩ ∧
      circle.mixinNames.card = 2 ∧
      circle.resolve 1 heading = .error (.mixinDepthExceeded "large" 1) ∧
      circle.resolve 1000 heading = circle.resolve 2 heading ∧
      circle.resolve 1000 heading = .error (.cyclicMixin ["bold", "large", "bold"]) := by
  have plain : boldHeading.resolve 1 heading = .ok ⟨none, some ⟨[("weight", .int 700)]⟩⟩ := by cbv
  have counted : circle.mixinNames.card = 2 := by cbv
  have round : circle.resolve 2 heading = .error (.cyclicMixin ["bold", "large", "bold"]) := by cbv
  have kept := (higher_limits_keep_outcomes boldHeading heading).1 1 1000 (by omega)
  have settled := ((higher_limits_keep_outcomes circle heading).2 1000 (by omega)).2
  rw [counted] at settled
  exact ⟨plain, kept.1 _ plain, counted, by cbv, settled, settled.trans round⟩

end RuleStore

end Cascade
