import Cascade.Proofs.Additions
import Cascade.Proofs.Failure
import Cascade.Proofs.Transparency
set_option autoImplicit false

/-! What a memory of expansions holds after any resolutions, and how it is used. Resolutions are run
with two assertions built in: where a remembered expansion is refused, its rule exceeds the limit,
and only what is missing is stored. Main statement: each entry is the expansion of its rule, and no
assertion fails. -/

namespace Cascade

/-- Computations with a cache that stop without an outcome where an assertion fails. -/
abbrev Guarded (α : Type) : Type := ExceptT StyleError (StateT ResolutionCache Option) α

namespace Guarded

def insist (holds : Bool) : Guarded Unit :=
  if holds then pure () else ExceptT.lift (StateT.lift none)

/-- Whether an outcome is the error that the limit on depth causes. -/
def exceeds {α : Type} (limit : Nat) : Except StyleError α → Bool
  | .error (.mixinDepthExceeded _ reached) => reached == limit
  | _ => false

/-- What is stored must be new. -/
def remember (rule : Rule) (context : Context) (expansion : Expansion) : Guarded Unit := do
  insist ((← getThe ResolutionCache).getExpansion? rule.id context).isNone
  modifyThe ResolutionCache (·.putExpansion rule.id context expansion)

/-- Where something was found and refused, the rule that is expanded anew must exceed the limit. -/
def expandRule (limit pathLength : Nat) (context : Context)
    (enter : String → ResolvedPayload → Guarded Expansion) (rule : Rule) : Guarded Expansion := do
  let found := (← getThe ResolutionCache).getExpansion? rule.id context
  match found.filter fun hit => pathLength + hit.depth ≤ limit with
  | some hit => return hit
  | none =>
      let outcome ← ExceptT.lift (Expansion.expandRule enter rule).run
      insist (found.isNone || exceeds limit outcome)
      let expansion ← MonadExcept.ofExcept outcome
      remember rule context expansion
      return expansion

def resolver (store : RuleStore) (limit : Nat) : Resolver Guarded :=
  ⟨store, limit, expandRule limit⟩

section Composition

variable {α β : Type} {Kept : ResolutionCache → Prop}

theorem run_bind (guarded : Guarded α) (next : α → Guarded β) (cache : ResolutionCache) :
    (guarded >>= next).run.run cache =
      match guarded.run.run cache with
      | none => none
      | some (.ok value, after) => (next value).run.run after
      | some (.error problem, after) => some (.error problem, after) := by
  change ((guarded.run.run cache).bind fun ran => (ExceptT.bindCont next ran.1).run ran.2) = _
  rcases guarded.run.run cache with _ | ⟨outcome, after⟩
  · rfl
  · cases outcome with
    | error problem => rfl
    | ok value => rfl

theorem run_insist (holds : Bool) (cache : ResolutionCache) :
    (insist holds).run.run cache = if holds then some (.ok (), cache) else none := by
  cases holds with
  | false => rfl
  | true => rfl

theorem run_get (cache : ResolutionCache) :
    (getThe ResolutionCache : Guarded ResolutionCache).run.run cache = some (.ok cache, cache) :=
  rfl

theorem run_remember (rule : Rule) (context : Context) (expansion : Expansion)
    (cache : ResolutionCache) : (remember rule context expansion).run.run cache =
      if (cache.getExpansion? rule.id context).isNone then
        some (.ok (), cache.putExpansion rule.id context expansion)
      else none := by
  rw [remember, run_bind, run_get]
  simp only
  rw [run_bind, run_insist]
  by_cases missing : (cache.getExpansion? rule.id context).isNone = true
  · rw [if_pos missing, if_pos missing]
    rfl
  · rw [if_neg missing, if_neg missing]

theorem run_lift (guarded : Guarded α) (cache : ResolutionCache) :
    (ExceptT.lift guarded.run : Guarded (Except StyleError α)).run.run cache =
      (guarded.run.run cache).map fun ran => (Except.ok ran.1, ran.2) := by
  change ((guarded.run.run cache).bind fun ran => some (Except.ok ran.1, ran.2)) = _
  cases guarded.run.run cache with
  | none => rfl
  | some ran => rfl

/-- No assertion fails, from any cache that the computation may meet. -/
def Passes (Kept : ResolutionCache → Prop) (guarded : Guarded α) (memoized : Memoized α) : Prop :=
  ∀ cache, Kept cache → guarded.run.run cache = some (memoized.run.run cache)

theorem passes_pure (value : α) : Passes Kept (pure value) (pure value) :=
  fun _ _ => rfl

theorem passes_throw (problem : StyleError) :
    Passes Kept (throw problem : Guarded α) (throw problem) :=
  fun _ _ => rfl

theorem Passes.bind {guarded : Guarded α} {memoized : Memoized α} {plain : Except StyleError α}
    {guardedNext : α → Guarded β} {next : α → Memoized β} (passes : Passes Kept guarded memoized)
    (tracks : Memoized.Tracks Kept memoized plain)
    (continues : ∀ value, Passes Kept (guardedNext value) (next value)) :
    Passes Kept (guarded >>= guardedNext) (memoized >>= next) := by
  intro cache kept
  obtain ⟨_, keptAfter⟩ := tracks cache kept
  rw [run_bind, Memoized.run_bind, passes cache kept]
  rcases ran : memoized.run.run cache with ⟨outcome, after⟩
  rw [ran] at keptAfter
  cases outcome with
  | error problem => rfl
  | ok value => exact continues value after keptAfter

theorem Passes.map {guarded : Guarded α} {memoized : Memoized α} {plain : Except StyleError α}
    (passes : Passes Kept guarded memoized) (tracks : Memoized.Tracks Kept memoized plain)
    (change : α → β) : Passes Kept (change <$> guarded) (change <$> memoized) := by
  rw [map_eq_pure_bind, map_eq_pure_bind]
  exact passes.bind tracks fun value => passes_pure (change value)

theorem passes_foldlM {ι : Type} {guardedStep : α → ι → Guarded α} {step : α → ι → Memoized α}
    {plainStep : α → ι → Except StyleError α} {items : List ι} (start : α)
    (passes : ∀ item ∈ items, ∀ before, Passes Kept (guardedStep before item) (step before item))
    (tracks : ∀ item ∈ items, ∀ before,
      Memoized.Tracks Kept (step before item) (plainStep before item)) :
    Passes Kept (items.foldlM guardedStep start) (items.foldlM step start) := by
  induction items generalizing start with
  | nil => exact passes_pure start
  | cons item rest ih =>
      rw [List.foldlM_cons, List.foldlM_cons]
      apply (passes item List.mem_cons_self start).bind (tracks item List.mem_cons_self start)
      intro value
      exact ih value (fun other inside => passes other (List.mem_cons_of_mem item inside))
        fun other inside => tracks other (List.mem_cons_of_mem item inside)

end Composition

/-! ### Resolution -/

variable {store : RuleStore} {limit room : Nat} {path : List String} {context : Context}
  {before : ResolutionCache}

theorem run_expandRule (pathLength : Nat) (enter : String → ResolvedPayload → Guarded Expansion)
    (rule : Rule) (cache : ResolutionCache) :
    (expandRule limit pathLength context enter rule).run.run cache =
      match (cache.getExpansion? rule.id context).filter
          fun hit => pathLength + hit.depth ≤ limit with
      | some hit => some (.ok hit, cache)
      | none =>
          match (Expansion.expandRule enter rule).run.run cache with
          | none => none
          | some (outcome, after) =>
              if (cache.getExpansion? rule.id context).isNone || exceeds limit outcome then
                match outcome with
                | .error problem => some (.error problem, after)
                | .ok expansion =>
                    if (after.getExpansion? rule.id context).isNone then
                      some (.ok expansion, after.putExpansion rule.id context expansion)
                    else none
              else none := by
  rw [expandRule, run_bind, run_get]
  simp only
  cases (cache.getExpansion? rule.id context).filter fun hit => pathLength + hit.depth ≤ limit with
  | some hit => rfl
  | none =>
      simp only
      rw [run_bind, run_lift]
      rcases (Expansion.expandRule enter rule).run.run cache with _ | ⟨outcome, after⟩
      · rfl
      · rw [Option.map_some]
        simp only
        rw [run_bind, run_insist]
        by_cases allowed :
            ((cache.getExpansion? rule.id context).isNone || exceeds limit outcome) = true
        · rw [if_pos allowed, if_pos allowed]
          simp only
          rw [run_bind]
          cases outcome with
          | error problem => rfl
          | ok expansion =>
              change (remember rule context expansion >>= fun _ => pure expansion).run.run after = _
              rw [run_bind, run_remember]
              by_cases missing : (after.getExpansion? rule.id context).isNone = true
              · simp only [if_pos missing]
                rfl
              · simp only [if_neg missing]
        · rw [if_neg allowed, if_neg allowed]

theorem passes_expandAnew {Kept : ResolutionCache → Prop} {rule : Rule}
    {guarded : String → ResolvedPayload → Guarded Expansion}
    {memoized : String → ResolvedPayload → Memoized Expansion}
    {plain : String → ResolvedPayload → Except StyleError Expansion}
    (passes : ∀ name ∈ rule.payload.mixins, ∀ payload,
      Passes Kept (guarded name payload) (memoized name payload))
    (tracks : ∀ name ∈ rule.payload.mixins, ∀ payload,
      Memoized.Tracks Kept (memoized name payload) (plain name payload)) :
    Passes Kept (Expansion.expandRule guarded rule) (Expansion.expandRule memoized rule) := by
  rw [Expansion.expandRule, Expansion.expandRule, Expansion.mergeMixins_eq_foldlM,
    Expansion.mergeMixins_eq_foldlM]
  apply passes_foldlM
  · intro name listed expansion
    exact (passes name listed expansion.payload).map (tracks name listed expansion.payload)
      expansion.descend
  · intro name listed expansion
    exact (tracks name listed expansion.payload).map expansion.descend

/-- What a refused hit stands for does not fit: expanded anew, the rule exceeds the limit. -/
theorem exceeds_of_refused (distinct : store.IdsDistinct) (roomLeft : path.length + room = limit)
    (leads : Resolution.LeadsTo store path context) {rule : Rule}
    (matching : rule ∈ store.matching context) {cache : ResolutionCache} {hit : Expansion}
    (remembers : cache.Remembers store)
    (found : cache.getExpansion? rule.id context = some hit)
    (refused : ¬ path.length + hit.depth ≤ limit) :
    exceeds limit (Expansion.expandRule (Resolution.enter store limit room path context) rule) =
      true := by
  obtain ⟨other, otherMatching, sameId, _, isOf⟩ := remembers rule.id context hit found
  rw [distinct.eq_of_matching otherMatching matching sameId] at isOf
  have deeper : room < hit.depth := by omega
  obtain ⟨name, exceeded⟩ := isOf.expandRule_exceeds leads matching deeper
  rw [exceeded]
  exact beq_self_eq_true limit

theorem passes_expandRule (distinct : store.IdsDistinct) (roomLeft : path.length + room = limit)
    (leads : Resolution.LeadsTo store path context) {rule : Rule}
    (matching : rule ∈ store.matching context)
    (passes : ∀ name ∈ rule.payload.mixins, ∀ payload,
      Passes (ResolutionCache.After store before)
        ((resolver store limit).enter room path context name payload)
        ((Memoized.resolver store limit).enter room path context name payload))
    (tracks : ∀ name ∈ rule.payload.mixins, ∀ payload,
      Memoized.Tracks (ResolutionCache.After store before)
        ((Memoized.resolver store limit).enter room path context name payload)
        (Resolution.enter store limit room path context name payload)) :
    Passes (ResolutionCache.After store before)
      (expandRule limit path.length context ((resolver store limit).enter room path context) rule)
      (Memoized.expandRule limit path.length context
        ((Memoized.resolver store limit).enter room path context) rule) := by
  intro cache kept
  rw [run_expandRule, Memoized.run_expandRule]
  cases looked : (cache.getExpansion? rule.id context).filter
      fun hit => path.length + hit.depth ≤ limit with
  | some hit => rfl
  | none =>
      have sameOutcome := (Memoized.tracks_expandAnew tracks cache kept).1
      simp only
      rw [passes_expandAnew passes tracks cache kept]
      rcases ran : (Expansion.expandRule ((Memoized.resolver store limit).enter room path context)
        rule).run.run cache with ⟨outcome, after⟩
      rw [ran] at sameOutcome
      simp only at sameOutcome ⊢
      -- Something was found only if it was refused, and then there is nothing to store.
      cases found : cache.getExpansion? rule.id context with
      | some hit =>
          have refused : ¬ path.length + hit.depth ≤ limit := fun fits =>
            Option.filter_eq_none_iff.mp looked hit found (decide_eq_true fits)
          have exceeded := exceeds_of_refused distinct roomLeft leads matching kept.remembers found
            refused
          rw [← sameOutcome] at exceeded
          rw [exceeded, Bool.or_true, if_pos rfl]
          cases outcome with
          | error problem => rfl
          | ok expansion => cases exceeded
      | none =>
          rw [Option.isNone_none, Bool.true_or, if_pos rfl]
          cases outcome with
          | error problem => rfl
          | ok expansion =>
              -- A rule that was expanded has bounded chains below it, so none leads back to it.
              have within := (Resolution.longestChain_of_expandRule
                (Resolution.measures_enter store limit room path context) sameOutcome.symm).1.within
              have missing : ((Expansion.expandRule
                  ((Memoized.resolver store limit).enter room path context) rule).run.run
                    cache).2.getExpansion? rule.id context = none :=
                Memoized.getExpansion?_expandAnew matching within found
              rw [ran] at missing
              simp only [missing, Option.isNone_none, if_true]

theorem passes_expandNext (distinct : store.IdsDistinct) (roomLeft : path.length + room = limit)
    (leads : Resolution.LeadsTo store path context)
    (passes : ∀ name, store.Refers context context.name name → ∀ payload,
      Passes (ResolutionCache.After store before)
        ((resolver store limit).enter room path context name payload)
        ((Memoized.resolver store limit).enter room path context name payload))
    {rule : Rule} (matching : rule ∈ store.matching context) (expansion : Expansion) :
    Passes (ResolutionCache.After store before)
      (Expansion.expandNext
        (expandRule limit path.length context ((resolver store limit).enter room path context))
          expansion rule)
      (Expansion.expandNext
        (Memoized.expandRule limit path.length context
          ((Memoized.resolver store limit).enter room path context)) expansion rule) := by
  unfold Expansion.expandNext
  split
  · exact passes_pure _
  · next hasMixins =>
      have refers (name : String) (listed : name ∈ rule.payload.mixins) :
          store.Refers context context.name name :=
        (RuleStore.refers_name_iff name).mpr ⟨rule, matching, listed⟩
      have tracks (name : String) (listed : name ∈ rule.payload.mixins)
          (payload : ResolvedPayload) :
          Memoized.Tracks (ResolutionCache.After store before)
            ((Memoized.resolver store limit).enter room path context name payload)
            (Resolution.enter store limit room path context name payload) :=
        Memoized.tracks_enter distinct roomLeft leads name (refers name listed) payload
      have expanded := passes_expandRule distinct roomLeft leads matching
        (fun name listed payload => passes name (refers name listed) payload) tracks
      apply expanded.map
      apply Memoized.tracks_expandRule distinct roomLeft leads matching _ tracks
      exact fun none => hasMixins (List.isEmpty_iff.mpr none)

theorem passes_visit_of_enter (distinct : store.IdsDistinct)
    (roomLeft : path.length + room = limit) (leads : Resolution.LeadsTo store path context)
    (passes : ∀ name, store.Refers context context.name name → ∀ payload,
      Passes (ResolutionCache.After store before)
        ((resolver store limit).enter room path context name payload)
        ((Memoized.resolver store limit).enter room path context name payload))
    (payload : ResolvedPayload) :
    Passes (ResolutionCache.After store before)
      ((resolver store limit).visit room path context payload)
      ((Memoized.resolver store limit).visit room path context payload) := by
  rw [Resolver.visit_eq, Resolver.visit_eq, Expansion.mergeRules_eq_foldlM,
    Expansion.mergeRules_eq_foldlM]
  apply passes_foldlM
  · intro rule matching expansion
    exact passes_expandNext distinct roomLeft leads passes matching expansion
  · intro rule matching expansion
    apply Memoized.tracks_expandNext distinct roomLeft leads _ matching expansion
    intro name refers payload
    exact Memoized.tracks_enter distinct roomLeft leads name refers payload

theorem passes_enter (distinct : store.IdsDistinct) (roomLeft : path.length + room = limit)
    (leads : Resolution.LeadsTo store path context) (name : String)
    (refers : store.Refers context context.name name) (payload : ResolvedPayload) :
    Passes (ResolutionCache.After store before)
      ((resolver store limit).enter room path context name payload)
      ((Memoized.resolver store limit).enter room path context name payload) :=
  Resolver.related_enter (Passes (ResolutionCache.After store before)) (resolver store limit)
    (Memoized.resolver store limit) rfl rfl passes_throw (passes_visit_of_enter distinct) roomLeft
    leads name refers payload

end Guarded

/-- Resolution with the assertions, which has no outcome where one of them fails. -/
def RuleStore.resolveGuarded (store : RuleStore) (cache : ResolutionCache) (limit : Nat)
    (context : Context) : Option (Except StyleError ResolvedPayload × ResolutionCache) :=
  (((Guarded.resolver store limit).visit limit [] context ∅).run.run cache).map
    fun (result, after) => (result.map Expansion.payload, after)

theorem RuleStore.resolveGuarded_eq_resolveWith {store : RuleStore} {cache : ResolutionCache}
    (distinct : store.IdsDistinct) (remembers : cache.Remembers store) (limit : Nat)
    (context : Context) :
    store.resolveGuarded cache limit context = some (store.resolveWith cache limit context) := by
  have passes : Guarded.Passes (ResolutionCache.After store cache)
      ((Guarded.resolver store limit).visit limit [] context ∅)
      ((Memoized.resolver store limit).visit limit [] context ∅) := by
    have roomLeft : ([] : List String).length + limit = limit := Nat.zero_add limit
    exact Guarded.passes_visit_of_enter distinct roomLeft Resolution.leadsTo_nil
      (fun name refers payload =>
        Guarded.passes_enter distinct roomLeft Resolution.leadsTo_nil name refers payload) ∅
  rw [resolveGuarded, passes cache ⟨remembers, rfl, rfl, rfl⟩]
  rfl

/-! ### Any run of resolutions -/

/-- What a resolution is asked for: a context, under a limit of its own. -/
structure Request where
  limit : Nat
  context : Context

namespace RuleStore

/-- The cache after the requests were resolved over one store, in order. -/
def serve (store : RuleStore) (cache : ResolutionCache) (requests : List Request) :
    ResolutionCache :=
  requests.foldl (fun cache request =>
    (store.resolveWith cache request.limit request.context).2) cache

theorem remembers_serve {store : RuleStore} {cache : ResolutionCache}
    (distinct : store.IdsDistinct) (remembers : cache.Remembers store) (requests : List Request) :
    (store.serve cache requests).Remembers store := by
  induction requests generalizing cache with
  | nil => exact remembers
  | cons request rest ih =>
      obtain ⟨_, kept⟩ := resolveWith_eq_resolve distinct remembers request.limit request.context
      exact ih kept.remembers

/-- After any requests to an empty cache, each entry is the expansion of a rule with mixins that
matches the context, as it is found without a cache under any limit that leaves room for its depth.
No assertion fails in what is resolved next: where an entry is refused, its rule exceeds the limit,
and only what is missing is stored. -/
theorem remembered_expansions_exact (insertions : List Insertion) (capacity : Nat)
    (requests : List Request) :
    let store := ofInsertions insertions
    let cache := store.serve (.ofCapacity capacity) requests
    (∀ id context expansion, cache.getExpansion? id context = some expansion →
      ∃ rule ∈ store.rulesAnchoredAt context.name,
        rule.id = id ∧ rule.matches context = true ∧ rule.payload.mixins ≠ [] ∧
          expansion.IsOf store context rule ∧ ∀ limit, expansion.depth ≤ limit →
            Expansion.expandRule (Resolution.enter store limit limit [] context) rule =
              .ok expansion) ∧
    ∀ limit context,
      store.resolveGuarded cache limit context = some (store.resolveWith cache limit context) := by
  intro store cache
  have distinct : store.IdsDistinct := Built.idsDistinct ⟨insertions, rfl⟩
  have remembers : cache.Remembers store :=
    remembers_serve distinct (ResolutionCache.remembers_of_empty rfl) requests
  constructor
  · intro id context expansion found
    obtain ⟨rule, matching, sameId, hasMixins, isOf⟩ := remembers id context expansion found
    obtain ⟨anchored, fitting⟩ := List.mem_filter.mp matching
    refine ⟨rule, anchored, sameId, fitting, hasMixins, isOf, ?_⟩
    intro limit fits
    exact isOf.expandRule_eq Resolution.leadsTo_nil matching fits
  · exact resolveGuarded_eq_resolveWith distinct remembers

/-- The first request leaves an expansion behind, which is refused to the second. Were it remembered
with a greater depth, an assertion would fail. -/
example :
    let texts := ofInsertions [⟨⟨[], ⟨"Text", []⟩⟩, ⟨none, none, ["font"]⟩, .explicit⟩]
    let text := Context.ofRoot (.ofName "Text")
    let cache := texts.serve (.ofCapacity 0) [⟨1, text⟩, ⟨0, text⟩]
    let wrong := cache.putExpansion ⟨0⟩ text ⟨∅, 3⟩
    cache.getExpansion? ⟨0⟩ text = some ⟨∅, 1⟩ ∧ texts.resolveGuarded wrong 2 text = none :=
  ⟨by cbv, by cbv⟩

end RuleStore

end Cascade
