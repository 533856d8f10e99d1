import Cascade.Proofs.Calls
set_option autoImplicit false

/-! What a call does to a stylesheet, said once. Either the rules change, or the sheet stays as it
is, or a context is resolved. Main statement: the generation counts the changes of the rules. -/

namespace Cascade.Stylesheet

/-! ### Insertions of several rules -/

variable {sheet : Stylesheet} {rules : List (String × RulePayload)} {rank : Rank}

theorem readRules_cons_eq_ok_iff (text : String) (payload : RulePayload)
    (rest : List (String × RulePayload)) (parsed : List (Selector × RulePayload)) :
    readRules ((text, payload) :: rest) = .ok parsed ↔
      ∃ selector, readSelector text = .ok selector ∧
        ∃ others, readRules rest = .ok others ∧ parsed = (selector, payload) :: others := by
  rw [readRules]
  cases readSelector text with
  | error first => simp
  | ok selector => cases readRules rest <;> simp [Except.map, eq_comm]

theorem eq_nil_of_readRules (read : readRules rules = .ok []) : rules = [] := by
  cases rules with
  | nil => rfl
  | cons rule rest =>
      obtain ⟨_, _, _, _, impossible⟩ := (readRules_cons_eq_ok_iff rule.1 rule.2 rest []).mp read
      cases impossible

theorem insertRules_of_error {problem : StyleError} (failed : readRules rules = .error problem) :
    sheet.insertRules rules rank = (.error problem, sheet) := by
  unfold insertRules
  rw [failed]

theorem insertRules_of_nil (read : readRules rules = .ok []) :
    sheet.insertRules rules rank = (.ok (), sheet) := by
  unfold insertRules
  rw [read]

theorem insertRules_of_cons {first : Selector × RulePayload}
    {others : List (Selector × RulePayload)} (read : readRules rules = .ok (first :: others)) :
    sheet.insertRules rules rank = (.ok (), sheet.withStore ((first :: others).foldl
      (fun store rule => (store.insert rule.1 rule.2 rank).2) sheet.store)) := by
  unfold insertRules
  rw [read]

/-! ### A resolution -/

/-- The courses that a resolution can take, each with its result and the sheet afterwards. -/
inductive Course (sheet : Stylesheet) (context : Context) :
    Except StyleError IssuedPayload × Stylesheet → Prop where
  | found (enabled : sheet.config.cacheEnabled = true) (issued : IssuedPayload)
      (held : (sheet.cache.sync sheet.generation).get? context = some issued) :
      Course sheet context (.ok issued, { sheet with cache := sheet.cache.sync sheet.generation })
  | failed (enabled : sheet.config.cacheEnabled = true)
      (missing : (sheet.cache.sync sheet.generation).get? context = none) (problem : StyleError)
      (cache : ResolutionCache)
      (outcome : sheet.store.resolveWith (sheet.cache.sync sheet.generation)
        sheet.config.maxMixinDepth context = (.error problem, cache)) :
      Course sheet context (.error problem, { sheet with cache })
  | foundLate (enabled : sheet.config.cacheEnabled = true)
      (missing : (sheet.cache.sync sheet.generation).get? context = none)
      (payload : ResolvedPayload) (cache : ResolutionCache)
      (outcome : sheet.store.resolveWith (sheet.cache.sync sheet.generation)
        sheet.config.maxMixinDepth context = (.ok payload, cache)) (issued : IssuedPayload)
      (held : (cache.sync sheet.generation).get? context = some issued) :
      Course sheet context (.ok issued, { sheet with
        cache := cache.sync sheet.generation, issued := sheet.issued + 1 })
  | stored (enabled : sheet.config.cacheEnabled = true)
      (missing : (sheet.cache.sync sheet.generation).get? context = none)
      (payload : ResolvedPayload) (cache : ResolutionCache)
      (outcome : sheet.store.resolveWith (sheet.cache.sync sheet.generation)
        sheet.config.maxMixinDepth context = (.ok payload, cache))
      (stillMissing : (cache.sync sheet.generation).get? context = none) :
      Course sheet context (.ok ⟨sheet.issued, payload⟩, { sheet with
        cache := (cache.sync sheet.generation).put context ⟨sheet.issued, payload⟩,
        issued := sheet.issued + 1 })
  | failedUncached (disabled : sheet.config.cacheEnabled = false) (problem : StyleError)
      (outcome : sheet.store.resolve sheet.config.maxMixinDepth context = .error problem) :
      Course sheet context (.error problem, sheet)
  | builtUncached (disabled : sheet.config.cacheEnabled = false) (payload : ResolvedPayload)
      (outcome : sheet.store.resolve sheet.config.maxMixinDepth context = .ok payload) :
      Course sheet context (.ok ⟨sheet.issued, payload⟩, { sheet with issued := sheet.issued + 1 })

theorem course_resolve (sheet : Stylesheet) (context : Context) :
    Course sheet context (sheet.resolve context) := by
  unfold resolve issue
  simp only
  split
  · next enabled =>
      split
      · next issued held => exact .found enabled issued held
      · next missing =>
          split
          · next problem cache outcome => exact .failed enabled missing problem cache outcome
          · next payload cache outcome =>
              split
              · next issued held =>
                  exact .foundLate enabled missing payload cache outcome issued held
              · next stillMissing =>
                  exact .stored enabled missing payload cache outcome stillMissing
  · next disabled =>
      rw [Bool.not_eq_true] at disabled
      split
      · next problem outcome => exact .failedUncached disabled problem outcome
      · next payload outcome => exact .builtUncached disabled payload outcome

/-- A resolution changes nothing but the cache and the count of issued objects. -/
theorem resolve_keeps (sheet : Stylesheet) (context : Context) :
    ∃ cache issued, (sheet.resolve context).2 = { sheet with cache, issued } := by
  have course := sheet.course_resolve context
  generalize sheet.resolve context = outcome at course
  cases course <;> exact ⟨_, _, rfl⟩

theorem config_resolve (sheet : Stylesheet) (context : Context) :
    (sheet.resolve context).2.config = sheet.config := by
  obtain ⟨cache, issued, same⟩ := sheet.resolve_keeps context
  rw [same]

theorem generation_resolve (sheet : Stylesheet) (context : Context) :
    (sheet.resolve context).2.generation = sheet.generation := by
  obtain ⟨cache, issued, same⟩ := sheet.resolve_keeps context
  rw [same]

/-! ### Any call -/

/-- What becomes of a sheet, by the call and its answer. -/
inductive Effect (sheet : Stylesheet) (entry : Call × Answer) : Stylesheet → Prop where
  | changed (store : RuleStore) (changes : Call.changesRules entry = true) :
      Effect sheet entry (sheet.withStore store)
  | ignored (keeps : Call.changesRules entry = false) (nothing : Call.served? entry = none) :
      Effect sheet entry sheet
  | refused (keeps : Call.changesRules entry = false) (nothing : Call.served? entry = none)
      (context : Context) (problem : StyleError)
      (fails : (sheet.resolve context).1 = .error problem) :
      Effect sheet entry (sheet.resolve context).2
  | served (keeps : Call.changesRules entry = false) (context : Context) (issued : IssuedPayload)
      (serves : Call.served? entry = some context)
      (resolved : (sheet.resolve context).1 = .ok issued) :
      Effect sheet entry (sheet.resolve context).2

theorem effect_insertRule (sheet : Stylesheet) (text : String) (payload : RulePayload)
    (rank : Rank) : Effect sheet (.insertRule text payload rank,
      (sheet.answer (.insertRule text payload rank)).1)
      (sheet.answer (.insertRule text payload rank)).2 := by
  cases read : readSelector text with
  | error problem =>
      have same : sheet.answer (.insertRule text payload rank) =
          (.inserted (.error problem), sheet) := by simp only [answer, insertRule, read]
      rw [same]
      exact .ignored rfl rfl
  | ok selector =>
      have same : sheet.answer (.insertRule text payload rank) =
          (.inserted (.ok (sheet.store.insert selector payload rank).1),
            sheet.withStore (sheet.store.insert selector payload rank).2) := by
        simp only [answer, insertRule, read]
      rw [same]
      exact .changed _ rfl

theorem effect_insertRules (sheet : Stylesheet) (rules : List (String × RulePayload))
    (rank : Rank) : Effect sheet (.insertRules rules rank,
      (sheet.answer (.insertRules rules rank)).1) (sheet.answer (.insertRules rules rank)).2 := by
  have taken : sheet.answer (.insertRules rules rank) =
      (.insertedAll (sheet.insertRules rules rank).1, (sheet.insertRules rules rank).2) := rfl
  rw [taken]
  cases read : readRules rules with
  | error problem =>
      rw [insertRules_of_error read]
      exact .ignored rfl rfl
  | ok parsed =>
      cases parsed with
      | nil =>
          rw [insertRules_of_nil read, eq_nil_of_readRules read]
          exact .ignored rfl rfl
      | cons first others =>
          rw [insertRules_of_cons read]
          cases rules with
          | nil => cases read
          | cons rule rest => exact .changed _ rfl

theorem effect_answer (sheet : Stylesheet) (call : Call) :
    Effect sheet (call, (sheet.answer call).1) (sheet.answer call).2 := by
  cases call with
  | insertRule text payload rank => exact sheet.effect_insertRule text payload rank
  | insertRules rules rank => exact sheet.effect_insertRules rules rank
  | resolve context =>
      have taken : sheet.answer (.resolve context) =
          (.resolved ((sheet.resolve context).1.map IssuedPayload.payload),
            (sheet.resolve context).2) := rfl
      rw [taken]
      cases outcome : (sheet.resolve context).1 with
      | error problem => exact .refused rfl rfl context problem outcome
      | ok issued => exact .served rfl context issued rfl outcome
  | getProps context own =>
      have taken : sheet.answer (.getProps context own) =
          (.props ((sheet.resolve context).1.map fun resolved => resolved.payload.mergeOwn own),
            (sheet.resolve context).2) := rfl
      rw [taken]
      cases outcome : (sheet.resolve context).1 with
      | error problem => exact .refused rfl rfl context problem outcome
      | ok issued => exact .served rfl context issued rfl outcome

/-! ### The generation -/

theorem Effect.generation {entry : Call × Answer} {after : Stylesheet}
    (effect : Effect sheet entry after) :
    after.generation = sheet.generation + if Call.changesRules entry then 1 else 0 := by
  cases effect with
  | changed store changes => rw [if_pos changes]; rfl
  | ignored keeps nothing => rw [keeps]; rfl
  | refused keeps nothing context problem fails => rw [keeps, generation_resolve]; rfl
  | served keeps context issued serves resolved => rw [keeps, generation_resolve]; rfl

theorem generation_run (sheet : Stylesheet) (calls : List Call) :
    (Call.run answer sheet calls).2.generation =
      sheet.generation + (Call.record answer sheet calls).countP Call.changesRules := by
  induction calls generalizing sheet with
  | nil => rfl
  | cons call rest ih =>
      have first := (sheet.effect_answer call).generation
      have continued := ih (sheet.answer call).2
      change (Call.run answer (sheet.answer call).2 rest).2.generation = sheet.generation +
        ((call, (sheet.answer call).1) :: Call.record answer (sheet.answer call).2 rest).countP
          Call.changesRules
      rw [List.countP_cons, continued, first]
      omega

end Cascade.Stylesheet
