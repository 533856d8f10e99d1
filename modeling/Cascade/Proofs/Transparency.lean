import Cascade.Proofs.Effects
import Cascade.Proofs.Insertions
import Cascade.Proofs.Tracking
set_option autoImplicit false

/-! A stylesheet answers as if nothing were cached. A cache is sound for a store when its
expansions are those of the rules of the store and its payloads are what the store resolves to.
Every call keeps the cache sound, whether it succeeds or fails, so no answer is a stale one. -/

namespace Cascade

/-! ### Stores that insertions lead to -/

namespace RuleStore

theorem LeftBy.idsDistinct {rules : List Rule} {store : RuleStore} (left : LeftBy rules store)
    (distinct : (rules.map Rule.id).Nodup) : store.IdsDistinct := by
  intro name
  have inserted : ∀ rule ∈ bucketOf rules name, rule ∈ rules := by
    intro rule inBucket
    exact Slots.mem_of_live (mem_bucketOf.mp inBucket).2
  rw [left.bucket]
  apply (nodup_bucketOf rules name).map_on
  intro rule inBucket other otherInBucket same
  exact List.inj_on_of_nodup_map distinct (inserted rule inBucket) (inserted other otherInBucket)
    same

def Built (store : RuleStore) : Prop := ∃ insertions, store = ofInsertions insertions

variable {store : RuleStore}

theorem built_empty : (∅ : RuleStore).Built := ⟨[], rfl⟩

theorem Built.insert (built : store.Built) (selector : Selector) (payload : RulePayload)
    (rank : Rank) : (store.insert selector payload rank).2.Built := by
  obtain ⟨insertions, rfl⟩ := built
  refine ⟨insertions ++ [(⟨selector, payload, rank⟩ : Insertion)], ?_⟩
  rw [ofInsertions_append_singleton]
  rfl

theorem Built.insertAll (built : store.Built) (rules : List (Selector × RulePayload))
    (rank : Rank) :
    (rules.foldl (fun store rule => (store.insert rule.1 rule.2 rank).2) store).Built := by
  induction rules generalizing store with
  | nil => exact built
  | cons rule rest ih => exact ih (built.insert rule.1 rule.2 rank)

theorem Built.idsDistinct (built : store.Built) : store.IdsDistinct := by
  obtain ⟨insertions, rfl⟩ := built
  apply (leftBy_ofInsertions insertions).idsDistinct
  rw [Insertion.ids_numbered]
  apply List.nodup_range.map
  intro number other same
  exact RuleId.mk.inj same

end RuleStore

/-! ### Sound caches -/

namespace ResolutionCache

/-- Both tables are right about the store, the payloads under one limit. -/
structure Sound (store : RuleStore) (limit : Nat) (cache : ResolutionCache) : Prop where
  remembers : cache.Remembers store
  answers : ∀ context issued, cache.get? context = some issued →
    store.resolve limit context = .ok issued.payload

variable {store : RuleStore} {limit : Nat} {cache : ResolutionCache}

theorem sound_of_empty (noContexts : cache.contexts = ∅) (noExpansions : cache.expansions = ∅) :
    cache.Sound store limit := by
  refine ⟨remembers_of_empty noExpansions, ?_⟩
  intro context issued found
  rw [get?, noContexts] at found
  cases found

theorem sound_clear (store : RuleStore) (limit : Nat) (cache : ResolutionCache) :
    cache.clear.Sound store limit := sound_of_empty rfl rfl

theorem Sound.sync (sound : cache.Sound store limit) (generation : Nat) :
    (cache.sync generation).Sound store limit := by
  unfold ResolutionCache.sync
  split
  · exact sound
  · exact sound_of_empty rfl rfl

theorem Sound.after {before : ResolutionCache} (sound : before.Sound store limit)
    (kept : After store before cache) : cache.Sound store limit := by
  refine ⟨kept.remembers, ?_⟩
  intro context issued found
  rw [get?, kept.contexts] at found
  exact sound.answers context issued found

theorem Sound.put (sound : cache.Sound store limit) {context : Context} {issued : IssuedPayload}
    (resolved : store.resolve limit context = .ok issued.payload) :
    (cache.put context issued).Sound store limit := by
  refine ⟨sound.remembers, ?_⟩
  intro other found held
  rcases get?_put held with ⟨rfl, rfl⟩ | before
  · exact resolved
  · exact sound.answers other found before

end ResolutionCache

/-! ### One call -/

/-- The sheet has the rules of the store and resolves under the limit, with a sound cache. -/
structure Stylesheet.Mirrors (limit : Nat) (sheet : Stylesheet) (store : RuleStore) : Prop where
  sameStore : sheet.store = store
  built : store.Built
  sameLimit : sheet.config.maxMixinDepth = limit
  sound : sheet.cache.Sound store limit

namespace Stylesheet.Mirrors

variable {limit : Nat} {sheet : Stylesheet} {store : RuleStore}

theorem ofConfig (config : EngineConfig) :
    Mirrors config.maxMixinDepth (Stylesheet.ofConfig config) ∅ :=
  ⟨rfl, RuleStore.built_empty, rfl, ResolutionCache.sound_of_empty rfl rfl⟩

theorem withStore (mirrors : Mirrors limit sheet store) {changed : RuleStore}
    (built : changed.Built) : Mirrors limit (sheet.withStore changed) changed :=
  ⟨rfl, built, mirrors.sameLimit, ResolutionCache.sound_clear changed limit sheet.cache⟩

theorem withCache (mirrors : Mirrors limit sheet store) {cache : ResolutionCache} {issued : Nat}
    (sound : cache.Sound store limit) : Mirrors limit { sheet with cache, issued } store :=
  ⟨mirrors.sameStore, mirrors.built, mirrors.sameLimit, sound⟩

/-- A hit is right, and so is what is built on a miss. -/
theorem resolve (mirrors : Mirrors limit sheet store) (context : Context) :
    (sheet.resolve context).1.map IssuedPayload.payload = store.resolve limit context ∧
      Mirrors limit (sheet.resolve context).2 store := by
  cases mirrors.sameStore
  cases mirrors.sameLimit
  have synced := mirrors.sound.sync sheet.generation
  have remade := RuleStore.resolveWith_eq_resolve mirrors.built.idsDistinct synced.remembers
    sheet.config.maxMixinDepth context
  have course := sheet.course_resolve context
  generalize sheet.resolve context = taken at course
  cases course with
  | found _ issued held =>
      exact ⟨(synced.answers context issued held).symm, mirrors.withCache synced⟩
  | failed _ _ problem cache outcome =>
      rw [outcome] at remade
      exact ⟨remade.1, mirrors.withCache (synced.after remade.2)⟩
  | foundLate _ _ payload cache outcome issued held =>
      rw [outcome] at remade
      have soundAgain := (synced.after remade.2).sync sheet.generation
      -- Whatever the second lookup finds is right, because the cache is still sound.
      exact ⟨(soundAgain.answers context issued held).symm, mirrors.withCache soundAgain⟩
  | stored _ _ payload cache outcome _ =>
      rw [outcome] at remade
      have soundAgain := (synced.after remade.2).sync sheet.generation
      exact ⟨remade.1, mirrors.withCache (soundAgain.put remade.1.symm)⟩
  | failedUncached _ problem outcome =>
      rw [outcome]
      exact ⟨rfl, mirrors⟩
  | builtUncached _ payload outcome =>
      rw [outcome]
      exact ⟨rfl, mirrors.withCache mirrors.sound⟩

theorem answer (mirrors : Mirrors limit sheet store) (call : Call) :
    (sheet.answer call).1 = (store.answer limit call).1 ∧
      Mirrors limit (sheet.answer call).2 (store.answer limit call).2 := by
  cases mirrors.sameStore
  cases call with
  | insertRule text payload rank =>
      cases read : Stylesheet.readSelector text with
      | error problem =>
          simp only [Stylesheet.answer, RuleStore.answer, Stylesheet.insertRule, read]
          exact ⟨trivial, mirrors⟩
      | ok selector =>
          simp only [Stylesheet.answer, RuleStore.answer, Stylesheet.insertRule, read]
          exact ⟨trivial, mirrors.withStore (mirrors.built.insert selector payload rank)⟩
  | insertRules rules rank =>
      cases read : Stylesheet.readRules rules with
      | error problem =>
          simp only [Stylesheet.answer, RuleStore.answer, Stylesheet.insertRules, read]
          exact ⟨trivial, mirrors⟩
      | ok parsed =>
          simp only [Stylesheet.answer, RuleStore.answer, Stylesheet.insertRules, read]
          cases parsed with
          | nil => exact ⟨rfl, mirrors⟩
          | cons rule rest =>
              exact ⟨rfl, mirrors.withStore (mirrors.built.insertAll (rule :: rest) rank)⟩
  | resolve context =>
      obtain ⟨sameOutcome, mirrorsAfter⟩ := mirrors.resolve context
      exact ⟨congrArg Answer.resolved sameOutcome, mirrorsAfter⟩
  | getProps context own =>
      obtain ⟨sameOutcome, mirrorsAfter⟩ := mirrors.resolve context
      refine ⟨?_, mirrorsAfter⟩
      change Answer.props ((sheet.resolve context).1.map fun resolved =>
        resolved.payload.mergeOwn own) = Answer.props ((sheet.store.resolve limit context).map _)
      rw [← sameOutcome]
      cases (sheet.resolve context).1 with
      | error problem => rfl
      | ok issued => rfl

end Stylesheet.Mirrors

/-! ### Any run of calls -/

namespace Stylesheet

/-- Over any run of calls a sheet answers what the bare rules answer, and whatever the run was, the
next resolution is that of the rules the sheet has by then. -/
theorem answers_as_uncached (config : EngineConfig) (calls : List Call) (context : Context) :
    (Call.run answer (ofConfig config) calls).1 =
      (Call.run (RuleStore.answer config.maxMixinDepth) ∅ calls).1 ∧
    (Call.run answer (ofConfig config) calls).2.store =
      (Call.run (RuleStore.answer config.maxMixinDepth) ∅ calls).2 ∧
    ((Call.run answer (ofConfig config) calls).2.resolve context).1.map IssuedPayload.payload =
      (Call.run answer (ofConfig config) calls).2.store.resolve config.maxMixinDepth context := by
  have stepAlike : ∀ sheet store, Mirrors config.maxMixinDepth sheet store → ∀ call,
      (sheet.answer call).1 = (store.answer config.maxMixinDepth call).1 ∧
        Mirrors config.maxMixinDepth (sheet.answer call).2
          (store.answer config.maxMixinDepth call).2 :=
    fun _ _ mirrors call => mirrors.answer call
  obtain ⟨sameAnswers, mirrors⟩ := Call.run_of_step stepAlike (Mirrors.ofConfig config) calls
  refine ⟨sameAnswers, mirrors.sameStore, ?_⟩
  rw [(mirrors.resolve context).1, mirrors.sameStore]

end Stylesheet

end Cascade
