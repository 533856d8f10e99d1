import Cascade.Proofs.Limits
import Cascade.Proofs.MixinLists
set_option autoImplicit false

/-! Mixins that the store has no rule for. They contribute nothing, but like any other name they
need room on the path. Main statement: a store without them resolves alike, unless the limit is
exceeded at just such a name. -/

namespace Cascade

namespace RuleStore

/-- The store has rules for the name, whether or not they match. -/
def knows (store : RuleStore) (name : String) : Bool := !(store.rulesAnchoredAt name).isEmpty

/-- The same rules, without the names that the store does not know in their lists of mixins. -/
def withoutMissing (store : RuleStore) : RuleStore := store.mapMixins (List.filter store.knows)

variable {store : RuleStore} {context : Context}

theorem matching_of_missing {name : String} (missing : store.knows name = false) :
    store.matching (context.forMixin name) = [] := by
  have noRules : store.rulesAnchoredAt name = [] := by
    rw [knows, Bool.not_eq_false', List.isEmpty_iff] at missing
    exact missing
  rw [matching, Context.name_forMixin, noRules, List.filter_nil]

theorem knows_of_refers_withoutMissing {name mixin : String}
    (refers : store.withoutMissing.Refers context name mixin) : store.knows mixin = true := by
  obtain ⟨rule, _, _, listed⟩ := (refers_mapMixins_iff store _ name mixin).mp refers
  exact (List.mem_filter.mp listed).2

end RuleStore

namespace Resolution

variable {store : RuleStore} {limit higher room : Nat} {path : List String} {context : Context}

theorem enterPayload_of_missing {name : String} (missing : store.knows name = false)
    (fresh : name ∉ path) (payload : ResolvedPayload) :
    enterPayload store limit (room + 1) path context name payload = .ok payload := by
  rw [enterPayload_succ fresh, visitPayload_eq, RuleStore.matching_of_missing missing]
  rfl

theorem not_mem_of_missing {name : String} (missing : store.knows name = false)
    (known : ∀ earlier ∈ path, store.knows earlier = true) : name ∉ path := by
  intro inside
  rw [known name inside] at missing
  cases missing

/-- The limit is exceeded by a name that the store does not know. -/
def ExceededByMissing (store : RuleStore) (limit : Nat) (problem : StyleError) : Prop :=
  ∃ name, store.knows name = false ∧ problem = .mixinDepthExceeded name limit

/-- Where a name is left out, nothing would have been contributed. Only names that the store knows
are on the path, so that a missing one never closes a circle. -/
theorem persists_withoutMissing (known : ∀ earlier ∈ path, store.knows earlier = true)
    (payload : ResolvedPayload) :
    Persists (ExceededByMissing store limit)
      (visitPayload store limit room path context payload)
      (visitPayload store.withoutMissing limit room path context payload) := by
  induction room using Nat.strongRecOn generalizing path context payload with
  | ind room ih =>
      rw [RuleStore.withoutMissing, visitPayload_filterMixins, visitPayload_eq]
      apply Persists.foldlM_matching
      intro name _ merged
      rw [Expansion.enterKept]
      cases isKnown : store.knows name with
      | false =>
          have fresh := not_mem_of_missing isKnown known
          cases room with
          | zero =>
              rw [enterPayload_zero fresh]
              exact .of_passed ⟨name, isKnown, rfl⟩ _
          | succ left =>
              rw [enterPayload_of_missing isKnown fresh]
              exact .refl _
      | true =>
          rw [if_pos rfl]
          apply Persists.enterPayload (Nat.le_refl room) fun full => .inr ⟨full, rfl⟩
          intro left further isLeft isFurther
          obtain rfl : further = left := by omega
          have longer := List.forall_mem_append.mpr ⟨known, List.forall_mem_singleton.mpr isKnown⟩
          exact ih further (by omega) longer merged

/-- With one step more, there is room for the missing names behind any others. -/
theorem persists_withMissing (known : ∀ earlier ∈ path, store.knows earlier = true)
    (payload : ResolvedPayload) :
    Persists StyleError.ExceedsLimit
      (visitPayload store.withoutMissing limit room path context payload)
      (visitPayload store higher (room + 1) path context payload) := by
  induction room using Nat.strongRecOn generalizing path context payload with
  | ind room ih =>
      rw [RuleStore.withoutMissing, visitPayload_filterMixins, visitPayload_eq]
      apply Persists.foldlM_matching
      intro name _ merged
      rw [Expansion.enterKept]
      cases isKnown : store.knows name with
      | false =>
          rw [enterPayload_of_missing isKnown (not_mem_of_missing isKnown known)]
          exact .refl _
      | true =>
          rw [if_pos rfl]
          apply Persists.enterPayload (Nat.le_succ room) fun _ => .inl ⟨name, limit, rfl⟩
          intro left further isLeft isFurther
          obtain rfl : further = left + 1 := by omega
          have longer := List.forall_mem_append.mpr ⟨known, List.forall_mem_singleton.mpr isKnown⟩
          exact ih left (by omega) longer merged

end Resolution

namespace RuleStore

variable {store : RuleStore} {limit : Nat} {context : Context}

theorem not_exceeded_by_missing (store : RuleStore) (limit : Nat) (context : Context)
    {name : String} (missing : store.knows name = false) (bound : Nat) :
    store.withoutMissing.resolve limit context ≠ .error (.mixinDepthExceeded name bound) := by
  intro failed
  cases explains_of_resolve failed with
  | mixinDepthExceeded distinct links fresh full =>
      obtain ⟨earlier, refers⟩ := exists_refers_of_isChain links List.mem_concat_self
      rw [knows_of_refers_withoutMissing refers] at missing
      cases missing

/-- Names without rules may be left out of all lists of mixins, unless one of them exceeds the
limit. And what a store without them resolves to, short of exceeding the limit, the store with them
resolves to under a limit that is higher by one. -/
theorem missing_mixins_count_at_limit_only (store : RuleStore) (limit : Nat) (context : Context) :
    (store.withoutMissing.resolve limit context = store.resolve limit context ↔
      ∀ name, store.knows name = false →
        store.resolve limit context ≠ .error (.mixinDepthExceeded name limit)) ∧
    ((∀ name, store.withoutMissing.resolve limit context ≠
        .error (.mixinDepthExceeded name limit)) →
      store.resolve (limit + 1) context = store.withoutMissing.resolve limit context) := by
  have known : ∀ earlier ∈ [], store.knows earlier = true := List.forall_mem_nil _
  refine ⟨⟨?_, ?_⟩, ?_⟩
  · intro same name missing
    rw [← same]
    exact not_exceeded_by_missing store limit context missing limit
  · intro neverMissing
    rw [resolve_eq_visitPayload, resolve_eq_visitPayload]
    apply Resolution.persists_withoutMissing known
    rintro problem failed ⟨name, missing, rfl⟩
    exact neverMissing name missing failed
  · intro neverExceeded
    rw [resolve_eq_visitPayload, resolve_eq_visitPayload]
    apply Resolution.persists_withMissing known
    rintro problem failed ⟨name, bound, rfl⟩
    cases explains_of_resolve failed with
    | mixinDepthExceeded => exact neverExceeded name failed

end RuleStore

/-! Headings refer to a mixin that in turn refers to one without rules. -/

namespace Sample

def danglingHeading : RuleStore := .ofInsertions [refersTo "Heading" ["bold"],
  ⟨⟨[], ⟨"bold", []⟩⟩, ⟨none, some ⟨[("weight", .int 700)]⟩, ["heavy"]⟩, .default⟩]

end Sample

namespace RuleStore

open Sample (danglingHeading heading)

/-- A name without rules is an error where the path is full already. -/
theorem heavy_exceeds_limit : danglingHeading.knows "heavy" = false ∧
    danglingHeading.resolve 1 heading = .error (.mixinDepthExceeded "heavy" 1) ∧
    danglingHeading.withoutMissing.resolve 1 heading =
      .ok ⟨none, some ⟨[("weight", .int 700)]⟩⟩ :=
  ⟨by cbv, by cbv, by cbv⟩

end RuleStore

end Cascade
