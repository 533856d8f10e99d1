import Cascade.Proofs.Memory
set_option autoImplicit false

/-! Computations with a memory beside computations without one. One tracks the other if it has the
same outcome, value or error, from every cache that it may meet, and leaves such a cache behind.
Main statement: a resolution with a memory tracks the one without. -/

namespace Cascade

/-! ### Two resolvers side by side -/

namespace Resolver

variable {m n : Type → Type} [Monad m] [MonadExceptOf StyleError m] [Monad n]
  [MonadExceptOf StyleError n] {store : RuleStore} {limit : Nat}

/-- A relation that holds between equal errors, and between two visits if it holds between what the
mixins of their rules come to, holds between what any mixin comes to on the way of a resolution. -/
theorem related_enter (Related : m Expansion → n Expansion → Prop) (first : Resolver m)
    (second : Resolver n) (firstLimit : first.limit = limit) (secondLimit : second.limit = limit)
    (throws : ∀ problem, Related (throw problem) (throw problem))
    (visits : ∀ {room : Nat} {path : List String} {context : Context},
      path.length + room = limit → Resolution.LeadsTo store path context →
      (∀ name, store.Refers context context.name name → ∀ payload,
        Related (first.enter room path context name payload)
          (second.enter room path context name payload)) →
      ∀ payload, Related (first.visit room path context payload)
        (second.visit room path context payload))
    {room : Nat} {path : List String} {context : Context} (roomLeft : path.length + room = limit)
    (leads : Resolution.LeadsTo store path context) (name : String)
    (refers : store.Refers context context.name name) (payload : ResolvedPayload) :
    Related (first.enter room path context name payload)
      (second.enter room path context name payload) := by
  induction room generalizing path context name payload with
  | zero =>
      by_cases repeated : name ∈ path
      · rw [enter_of_mem repeated, enter_of_mem repeated]
        exact throws _
      · rw [enter_zero repeated, enter_zero repeated, firstLimit, secondLimit]
        exact throws _
  | succ left ih =>
      by_cases repeated : name ∈ path
      · rw [enter_of_mem repeated, enter_of_mem repeated]
        exact throws _
      · rw [enter_succ repeated, enter_succ repeated]
        have longer : (path ++ [name]).length + left = limit := by
          rw [List.length_append, List.length_singleton]
          omega
        have leadsOn := leads.forMixin refers
        exact visits longer leadsOn (ih longer leadsOn) payload

end Resolver

namespace Memoized

/-- The same outcome as without a memory, and a cache of the kind that was there before. -/
def Tracks {α : Type} (Kept : ResolutionCache → Prop) (memoized : Memoized α)
    (plain : Except StyleError α) : Prop :=
  ∀ cache, Kept cache → (memoized.run.run cache).1 = plain ∧ Kept (memoized.run.run cache).2

section Composition

variable {α β : Type} {Kept : ResolutionCache → Prop}

theorem tracks_pure (value : α) : Tracks Kept (pure value) (.ok value) :=
  fun _ kept => ⟨rfl, kept⟩

theorem tracks_throw (problem : StyleError) :
    Tracks Kept (throw problem : Memoized α) (.error problem) :=
  fun _ kept => ⟨rfl, kept⟩

theorem run_bind (memoized : Memoized α) (next : α → Memoized β) (cache : ResolutionCache) :
    (memoized >>= next).run.run cache =
      match memoized.run.run cache with
      | (.ok value, after) => (next value).run.run after
      | (.error problem, after) => (.error problem, after) := by
  change (match memoized.run.run cache with
    | (outcome, after) => (ExceptT.bindCont next outcome).run after) = _
  rcases memoized.run.run cache with ⟨outcome, after⟩
  cases outcome with
  | error problem => rfl
  | ok value => rfl

theorem Tracks.bind {memoized : Memoized α} {plain : Except StyleError α}
    {next : α → Memoized β} {plainNext : α → Except StyleError β}
    (tracks : Tracks Kept memoized plain)
    (continues : ∀ value, plain = .ok value → Tracks Kept (next value) (plainNext value)) :
    Tracks Kept (memoized >>= next) (plain >>= plainNext) := by
  intro cache kept
  obtain ⟨sameOutcome, keptAfter⟩ := tracks cache kept
  rw [run_bind]
  rcases ran : memoized.run.run cache with ⟨outcome, after⟩
  rw [ran] at sameOutcome keptAfter
  cases outcome with
  | error problem =>
      rw [← sameOutcome]
      exact ⟨rfl, keptAfter⟩
  | ok value =>
      rw [← sameOutcome]
      exact continues value sameOutcome.symm after keptAfter

theorem Tracks.map {memoized : Memoized α} {plain : Except StyleError α}
    (tracks : Tracks Kept memoized plain) (change : α → β) :
    Tracks Kept (change <$> memoized) (change <$> plain) := by
  rw [map_eq_pure_bind, map_eq_pure_bind]
  exact tracks.bind fun value _ => tracks_pure (change value)

theorem tracks_foldlM {ι : Type} {step : α → ι → Memoized α}
    {plainStep : α → ι → Except StyleError α} {items : List ι} (start : α)
    (tracks : ∀ item ∈ items, ∀ before, Tracks Kept (step before item) (plainStep before item)) :
    Tracks Kept (items.foldlM step start) (items.foldlM plainStep start) := by
  induction items generalizing start with
  | nil => exact tracks_pure start
  | cons item rest ih =>
      rw [List.foldlM_cons, List.foldlM_cons]
      apply Tracks.bind (tracks item List.mem_cons_self start)
      intro value _
      exact ih value fun other inside => tracks other (List.mem_cons_of_mem item inside)

end Composition

/-! ### Resolution -/

variable {store : RuleStore} {limit room : Nat} {path : List String} {context : Context}
  {before : ResolutionCache}

theorem run_expandRule (pathLength : Nat) (enter : String → ResolvedPayload → Memoized Expansion)
    (rule : Rule) (cache : ResolutionCache) :
    (expandRule limit pathLength context enter rule).run.run cache =
      match (cache.getExpansion? rule.id context).filter
          fun hit => pathLength + hit.depth ≤ limit with
      | some hit => (.ok hit, cache)
      | none =>
          match (Expansion.expandRule enter rule).run.run cache with
          | (.ok expansion, after) => (.ok expansion, after.putExpansion rule.id context expansion)
          | (.error problem, after) => (.error problem, after) := by
  have looked : (remembered? rule context limit pathLength).run.run cache =
      (.ok ((cache.getExpansion? rule.id context).filter fun hit => pathLength + hit.depth ≤ limit),
        cache) := rfl
  rw [expandRule, run_bind, looked]
  cases (cache.getExpansion? rule.id context).filter fun hit => pathLength + hit.depth ≤ limit with
  | some hit => rfl
  | none =>
      simp only
      rw [run_bind]
      rcases (Expansion.expandRule enter rule).run.run cache with ⟨outcome, after⟩
      cases outcome with
      | error problem => rfl
      | ok expansion => rfl

theorem tracks_expandAnew {Kept : ResolutionCache → Prop} {rule : Rule}
    {memoized : String → ResolvedPayload → Memoized Expansion}
    {plain : String → ResolvedPayload → Except StyleError Expansion}
    (entered : ∀ name ∈ rule.payload.mixins, ∀ payload,
      Tracks Kept (memoized name payload) (plain name payload)) :
    Tracks Kept (Expansion.expandRule memoized rule) (Expansion.expandRule plain rule) := by
  rw [Expansion.expandRule, Expansion.expandRule, Expansion.mergeMixins_eq_foldlM,
    Expansion.mergeMixins_eq_foldlM]
  apply tracks_foldlM
  intro name listed expansion
  exact (entered name listed expansion.payload).map expansion.descend

/-- Whether a rule is found in the memory or not, its expansion is the one found without. -/
theorem tracks_expandRule (distinct : store.IdsDistinct) (roomLeft : path.length + room = limit)
    (leads : Resolution.LeadsTo store path context) {rule : Rule}
    (matching : rule ∈ store.matching context) (hasMixins : rule.payload.mixins ≠ [])
    (entered : ∀ name ∈ rule.payload.mixins, ∀ payload,
      Tracks (ResolutionCache.After store before)
        ((resolver store limit).enter room path context name payload)
        (Resolution.enter store limit room path context name payload)) :
    Tracks (ResolutionCache.After store before)
      (expandRule limit path.length context ((resolver store limit).enter room path context) rule)
      (Expansion.expandRule (Resolution.enter store limit room path context) rule) := by
  intro cache kept
  rw [run_expandRule]
  cases looked : (cache.getExpansion? rule.id context).filter
      fun hit => path.length + hit.depth ≤ limit with
  | some hit =>
      -- A hit passes over both checks. Where it fits into the limit, they would have found nothing.
      obtain ⟨found, usable⟩ := Option.filter_eq_some_iff.mp looked
      obtain ⟨other, otherMatching, sameId, _, isOf⟩ := kept.remembers rule.id context hit found
      rw [distinct.eq_of_matching otherMatching matching sameId] at isOf
      have fits : hit.depth ≤ room := by
        have bounded := of_decide_eq_true usable
        omega
      exact ⟨(isOf.expandRule_eq leads matching fits).symm, kept⟩
  | none =>
      obtain ⟨sameOutcome, keptAfter⟩ := tracks_expandAnew entered cache kept
      rcases ran : (Expansion.expandRule ((resolver store limit).enter room path context)
        rule).run.run cache with ⟨outcome, after⟩
      rw [ran] at sameOutcome keptAfter
      cases outcome with
      | error problem => exact ⟨sameOutcome, keptAfter⟩
      | ok expansion =>
          have isOf := Expansion.IsOf.of_expandRule sameOutcome.symm
          exact ⟨sameOutcome, keptAfter.putExpansion matching hasMixins isOf⟩

theorem tracks_expandNext (distinct : store.IdsDistinct) (roomLeft : path.length + room = limit)
    (leads : Resolution.LeadsTo store path context)
    (entered : ∀ name, store.Refers context context.name name → ∀ payload,
      Tracks (ResolutionCache.After store before)
        ((resolver store limit).enter room path context name payload)
        (Resolution.enter store limit room path context name payload))
    {rule : Rule} (matching : rule ∈ store.matching context) (expansion : Expansion) :
    Tracks (ResolutionCache.After store before)
      (Expansion.expandNext
        (expandRule limit path.length context ((resolver store limit).enter room path context))
        expansion rule)
      (Expansion.expandNext
        (Expansion.expandRule (Resolution.enter store limit room path context)) expansion
        rule) := by
  unfold Expansion.expandNext
  split
  · exact tracks_pure _
  · next hasMixins =>
      apply Tracks.map
      apply tracks_expandRule distinct roomLeft leads matching
      · exact fun none => hasMixins (List.isEmpty_iff.mpr none)
      · intro name listed payload
        exact entered name ((RuleStore.refers_name_iff name).mpr ⟨rule, matching, listed⟩) payload

theorem tracks_visit_of_enter (distinct : store.IdsDistinct)
    (roomLeft : path.length + room = limit) (leads : Resolution.LeadsTo store path context)
    (entered : ∀ name, store.Refers context context.name name → ∀ payload,
      Tracks (ResolutionCache.After store before)
        ((resolver store limit).enter room path context name payload)
        (Resolution.enter store limit room path context name payload))
    (payload : ResolvedPayload) :
    Tracks (ResolutionCache.After store before)
      ((resolver store limit).visit room path context payload)
      (Resolution.visit store limit room path context payload) := by
  rw [Resolver.visit_eq, Resolution.visit_eq, Expansion.mergeRules_eq_foldlM,
    Expansion.mergeRules_eq_foldlM]
  apply tracks_foldlM
  intro rule matching expansion
  exact tracks_expandNext distinct roomLeft leads entered matching expansion

theorem tracks_enter (distinct : store.IdsDistinct) (roomLeft : path.length + room = limit)
    (leads : Resolution.LeadsTo store path context) (name : String)
    (refers : store.Refers context context.name name) (payload : ResolvedPayload) :
    Tracks (ResolutionCache.After store before)
      ((resolver store limit).enter room path context name payload)
      (Resolution.enter store limit room path context name payload) :=
  Resolver.related_enter (Tracks (ResolutionCache.After store before)) (resolver store limit)
    (Resolution.resolver store limit) rfl rfl tracks_throw (tracks_visit_of_enter distinct) roomLeft
    leads name refers payload

end Memoized

namespace RuleStore

/-- Resolution with a memory has the outcome of resolution without, and leaves a sound memory. -/
theorem resolveWith_eq_resolve {store : RuleStore} {cache : ResolutionCache}
    (distinct : store.IdsDistinct) (remembers : cache.Remembers store) (limit : Nat)
    (context : Context) :
    (store.resolveWith cache limit context).1 = store.resolve limit context ∧
      ResolutionCache.After store cache (store.resolveWith cache limit context).2 := by
  have tracks : Memoized.Tracks (ResolutionCache.After store cache)
      ((Memoized.resolver store limit).visit limit [] context ∅)
      (Resolution.visit store limit limit [] context ∅) := by
    have roomLeft : ([] : List String).length + limit = limit := Nat.zero_add limit
    exact Memoized.tracks_visit_of_enter distinct roomLeft Resolution.leadsTo_nil
      (fun name refers payload =>
        Memoized.tracks_enter distinct roomLeft Resolution.leadsTo_nil name refers payload) ∅
  obtain ⟨sameOutcome, kept⟩ := tracks cache ⟨remembers, rfl, rfl, rfl⟩
  exact ⟨congrArg (Except.map Expansion.payload) sameOutcome, kept⟩

end RuleStore

end Cascade
