import Cascade.Proofs.Effects
import Cascade.Proofs.Transparency
set_option autoImplicit false

/-! The objects that a stylesheet issues. A resolution answers with the object that the cache has
for the context, or with one that was never issued before. Main statement: along any run of calls,
no two contexts have one object in the cache. -/

namespace Cascade

/-! ### The payloads in a cache -/

namespace ResolutionCache

variable {generation : Nat} {before cache : ResolutionCache}

/-- All payloads in the cache, if there are any, belong to the generation. -/
def Current (generation : Nat) (cache : ResolutionCache) : Prop :=
  cache.generation = generation ∨ cache.contexts = ∅

/-- The cache is in sync with the generation and has the payloads that it had before. -/
structure Carries (generation : Nat) (before cache : ResolutionCache) : Prop where
  generation : cache.generation = generation
  capacity : cache.capacity = before.capacity
  contexts : cache.contexts = before.contexts

theorem Current.carries_sync (current : before.Current generation) :
    Carries generation before (before.sync generation) := by
  unfold ResolutionCache.sync
  split
  · next same => exact ⟨same, rfl, rfl⟩
  · next different => exact ⟨rfl, rfl, (current.resolve_left different).symm⟩

theorem Carries.after {store : RuleStore} {middle : ResolutionCache}
    (carries : Carries generation before middle) (kept : After store middle cache) :
    Carries generation before cache :=
  ⟨kept.generation.trans carries.generation, kept.capacity.trans carries.capacity,
    kept.contexts.trans carries.contexts⟩

theorem Carries.sync_eq (carries : Carries generation before cache) :
    cache.sync generation = cache := by
  rw [ResolutionCache.sync, if_pos carries.generation]

theorem Carries.get?_eq (carries : Carries generation before cache) (context : Context) :
    cache.get? context = before.get? context := by
  rw [get?, get?, carries.contexts]

theorem contexts_put_of_missing {context : Context} (missing : cache.get? context = none)
    (issued : IssuedPayload) :
    (cache.put context issued).contexts =
      (if cache.capacity ≤ cache.contexts.size then ∅ else cache.contexts).insert context
        issued := by
  have absent : cache.contexts.contains context = false := by
    rw [OrderedMap.contains]
    exact congrArg Option.isSome missing
  simp only [put, absent, Bool.not_false, Bool.and_true, decide_eq_true_eq]

end ResolutionCache

/-! ### One resolution -/

namespace Stylesheet

variable {config : EngineConfig} {sheet after : Stylesheet} {context : Context}
  {result : Except StyleError IssuedPayload}

/-- Where the object that answers a resolution comes from, and what becomes of the cache. -/
inductive Issues (sheet : Stylesheet) (context : Context) (after : Stylesheet) :
    Except StyleError IssuedPayload → Prop where
  | shared (enabled : sheet.config.cacheEnabled = true) (issued : IssuedPayload)
      (held : sheet.cache.get? context = some issued)
      (sameTable : after.cache.contexts = sheet.cache.contexts)
      (sameCount : after.issued = sheet.issued) : Issues sheet context after (.ok issued)
  | stored (missing : sheet.cache.get? context = none) (payload : ResolvedPayload)
      (put : after.cache.contexts =
        (sheet.cache.put context ⟨sheet.issued, payload⟩).contexts)
      (counted : after.issued = sheet.issued + 1) :
      Issues sheet context after (.ok ⟨sheet.issued, payload⟩)
  | unshared (disabled : sheet.config.cacheEnabled = false) (payload : ResolvedPayload)
      (sameTable : after.cache.contexts = sheet.cache.contexts)
      (counted : after.issued = sheet.issued + 1) :
      Issues sheet context after (.ok ⟨sheet.issued, payload⟩)
  | failed (problem : StyleError) (sameTable : after.cache.contexts = sheet.cache.contexts)
      (sameCount : after.issued = sheet.issued) : Issues sheet context after (.error problem)

/-- The object was issued. Where the cache has its number, it has the object itself, and for a
context of the kind. -/
structure Confined (issued : IssuedPayload) (among : Context → Prop) (sheet : Stylesheet) :
    Prop where
  counted : issued.number < sheet.issued
  only : ∀ context found, sheet.cache.get? context = some found → found.number = issued.number →
    found = issued ∧ among context

/-- No object is in the cache for two contexts. -/
def Labelled (sheet : Stylesheet) : Prop :=
  ∀ context issued, sheet.cache.get? context = some issued → Confined issued (· = context) sheet

namespace Issues

variable {issued found : IssuedPayload} {other : Context} {among : Context → Prop}

theorem count_le (issues : Issues sheet context after result) : sheet.issued ≤ after.issued := by
  cases issues <;> omega

/-- What the cache has after the resolution is old, or it is the answer, just built. -/
theorem get?_after (issues : Issues sheet context after result)
    (held : after.cache.get? other = some found) :
    sheet.cache.get? other = some found ∨
      (other = context ∧ result = .ok found ∧ found.number = sheet.issued) := by
  unfold ResolutionCache.get? at held
  cases issues with
  | shared _ issued _ sameTable _ =>
      rw [sameTable] at held
      exact Or.inl held
  | stored _ payload put _ =>
      rw [put] at held
      rcases ResolutionCache.get?_put held with ⟨rfl, rfl⟩ | before
      · exact Or.inr ⟨rfl, rfl, rfl⟩
      · exact Or.inl before
  | unshared _ payload sameTable _ =>
      rw [sameTable] at held
      exact Or.inl held
  | failed problem sameTable _ =>
      rw [sameTable] at held
      exact Or.inl held

theorem confined (issues : Issues sheet context after result)
    (before : Confined issued among sheet) : Confined issued among after := by
  refine ⟨Nat.lt_of_lt_of_le before.counted issues.count_le, ?_⟩
  intro other found held same
  rcases issues.get?_after held with old | ⟨_, _, fresh⟩
  · exact before.only other found old same
  · have counted := before.counted
    omega

theorem confined_of_fresh (labelled : Labelled sheet)
    (issues : Issues sheet context after (.ok issued)) (fresh : issued.number = sheet.issued)
    (counted : after.issued = sheet.issued + 1) : Confined issued (· = context) after := by
  refine ⟨by omega, ?_⟩
  intro other found held same
  rcases issues.get?_after held with old | ⟨here, answers, _⟩
  · have oldCounted := (labelled other found old).counted
    omega
  · exact ⟨(Except.ok.inj answers).symm, here⟩

theorem confined_answer (labelled : Labelled sheet)
    (issues : Issues sheet context after (.ok issued)) : Confined issued (· = context) after := by
  cases issues with
  | shared enabled _ held sameTable sameCount =>
      exact (Issues.shared enabled issued held sameTable sameCount).confined
        (labelled context issued held)
  | stored missing payload put counted =>
      exact confined_of_fresh labelled (.stored missing payload put counted) rfl counted
  | unshared disabled payload sameTable counted =>
      exact confined_of_fresh labelled (.unshared disabled payload sameTable counted) rfl counted

theorem labelled (issues : Issues sheet context after result) (before : Labelled sheet) :
    Labelled after := by
  intro other found held
  rcases issues.get?_after held with old | ⟨rfl, rfl, _⟩
  · exact issues.confined (before other found old)
  · exact issues.confined_answer before

end Issues

/-! ### Any run of calls -/

/-- What holds of a sheet of the configuration between any two calls. -/
structure Coherent (config : EngineConfig) (sheet : Stylesheet) : Prop where
  mirrors : Mirrors config.maxMixinDepth sheet sheet.store
  sameConfig : sheet.config = config
  sameCapacity : sheet.cache.capacity = max config.maxCacheEntries 1
  current : sheet.cache.Current sheet.generation
  labelled : Labelled sheet

theorem Mirrors.self {limit : Nat} {store : RuleStore} (mirrors : Mirrors limit sheet store) :
    Mirrors limit sheet sheet.store := by
  cases mirrors.sameStore
  exact mirrors

theorem labelled_of_empty (noContexts : sheet.cache.contexts = ∅) : Labelled sheet := by
  intro context issued held
  rw [ResolutionCache.get?, noContexts] at held
  cases held

namespace Coherent

theorem ofConfig (config : EngineConfig) : Coherent config (Stylesheet.ofConfig config) :=
  ⟨.ofConfig config, rfl, rfl, Or.inl rfl, labelled_of_empty rfl⟩

theorem withStore (coherent : Coherent config sheet) {store : RuleStore} (built : store.Built) :
    Coherent config (sheet.withStore store) :=
  ⟨coherent.mirrors.withStore built, coherent.sameConfig, coherent.sameCapacity, Or.inr rfl,
    labelled_of_empty rfl⟩

/-- The cache is synced once more before the new object goes into it, to no effect. -/
theorem issues_resolve (coherent : Coherent config sheet) (context : Context) :
    Issues sheet context (sheet.resolve context).2 (sheet.resolve context).1 ∧
      (sheet.resolve context).2.cache.capacity = sheet.cache.capacity ∧
      (sheet.resolve context).2.cache.Current sheet.generation := by
  have synced := coherent.current.carries_sync
  have remade := RuleStore.resolveWith_eq_resolve coherent.mirrors.built.idsDistinct
    (coherent.mirrors.sound.sync sheet.generation).remembers sheet.config.maxMixinDepth context
  have course := sheet.course_resolve context
  generalize sheet.resolve context = taken at course
  cases course with
  | found enabled issued held =>
      rw [synced.get?_eq] at held
      exact ⟨.shared enabled issued held synced.contexts rfl, synced.capacity,
        Or.inl synced.generation⟩
  | failed _ _ problem cache outcome =>
      rw [outcome] at remade
      have carries := synced.after remade.2
      exact ⟨.failed problem carries.contexts rfl, carries.capacity, Or.inl carries.generation⟩
  | foundLate _ missing payload cache outcome issued held =>
      rw [outcome] at remade
      have carries := synced.after remade.2
      rw [carries.sync_eq, carries.get?_eq, ← synced.get?_eq, missing] at held
      cases held
  | stored _ missing payload cache outcome _ =>
      rw [outcome] at remade
      have carries := synced.after remade.2
      rw [synced.get?_eq] at missing
      rw [carries.sync_eq]
      refine ⟨.stored missing payload ?_ rfl, carries.capacity, Or.inl carries.generation⟩
      have stillMissing := (carries.get?_eq context).trans missing
      rw [ResolutionCache.contexts_put_of_missing missing,
        ResolutionCache.contexts_put_of_missing stillMissing, carries.contexts, carries.capacity]
  | failedUncached _ problem outcome =>
      exact ⟨.failed problem rfl rfl, rfl, coherent.current⟩
  | builtUncached disabled payload outcome =>
      exact ⟨.unshared disabled payload rfl rfl, rfl, coherent.current⟩

theorem resolve (coherent : Coherent config sheet) (context : Context) :
    Issues sheet context (sheet.resolve context).2 (sheet.resolve context).1 ∧
      Coherent config (sheet.resolve context).2 := by
  obtain ⟨issues, sameCapacity, current⟩ := coherent.issues_resolve context
  rw [← sheet.generation_resolve context] at current
  exact ⟨issues, (coherent.mirrors.resolve context).2.self,
    (sheet.config_resolve context).trans coherent.sameConfig,
    sameCapacity.trans coherent.sameCapacity, current, issues.labelled coherent.labelled⟩

theorem answer (coherent : Coherent config sheet) (call : Call) :
    Coherent config (sheet.answer call).2 := by
  have mirrors := (coherent.mirrors.answer call).2.self
  have effect := sheet.effect_answer call
  generalize sheet.answer call = taken at effect mirrors
  obtain ⟨_, after⟩ := taken
  cases effect with
  | changed store changes => exact coherent.withStore mirrors.built
  | ignored keeps nothing => exact coherent
  | refused keeps nothing context problem fails => exact (coherent.resolve context).2
  | served keeps context issued serves resolved => exact (coherent.resolve context).2

theorem run (coherent : Coherent config sheet) (calls : List Call) :
    Coherent config (Call.run Stylesheet.answer sheet calls).2 := by
  induction calls generalizing sheet with
  | nil => exact coherent
  | cons call rest ih => exact ih (coherent.answer call)

end Coherent

end Stylesheet

end Cascade
