import Cascade.Proofs.Issuing
import Cascade.Proofs.Visibility
import Mathlib.Data.Finset.Card
set_option autoImplicit false

/-! Which resolutions answer with one object. While the rules stay as they are, and the contexts
that are resolved fit into the cache, the cache has an object for each of them. Main statement: an
object answers one context only, between two changes of the rules, and where its context fits it
does so each time. -/

namespace Cascade

/-! ### Contexts that were resolved -/

namespace Call

/-- The contexts that were resolved since the rules last changed, with one call more. -/
def keepServed (served : Finset Context) (entry : Call × Answer) : Finset Context :=
  if changesRules entry then ∅
  else match served? entry with
    | some context => insert context served
    | none => served

/-- The contexts that were resolved, with success, since the rules last changed. -/
def servedSinceChange (entries : List (Call × Answer)) : Finset Context :=
  entries.foldl keepServed ∅

variable {served : Finset Context} {entry : Call × Answer} {entries : List (Call × Answer)}

theorem keepServed_of_change (changes : changesRules entry = true) :
    keepServed served entry = ∅ := if_pos changes

theorem keepServed_of_none (keeps : changesRules entry = false) (nothing : served? entry = none) :
    keepServed served entry = served := by
  simp [keepServed, keeps, nothing]

theorem keepServed_of_some (keeps : changesRules entry = false) {context : Context}
    (serves : served? entry = some context) :
    keepServed served entry = insert context served := by
  simp [keepServed, keeps, serves]

theorem subset_keepServed (keeps : changesRules entry = false) :
    served ⊆ keepServed served entry := by
  cases serves : served? entry with
  | none => exact (keepServed_of_none keeps serves).superset
  | some context =>
      rw [keepServed_of_some keeps serves]
      exact Finset.subset_insert context served

theorem subset_foldl_keepServed (unchanged : ∀ entry ∈ entries, changesRules entry = false) :
    served ⊆ entries.foldl keepServed served := by
  induction entries generalizing served with
  | nil => exact Finset.Subset.refl served
  | cons entry rest ih =>
      have keeps := unchanged entry List.mem_cons_self
      have keepsRest : ∀ later ∈ rest, changesRules later = false :=
        fun later inRest => unchanged later (List.mem_cons_of_mem entry inRest)
      exact (subset_keepServed keeps).trans (ih keepsRest)

end Call

/-! ### Caches with room -/

namespace ResolutionCache

variable {served : Finset Context} {cache after : ResolutionCache} {context : Context}

/-- The cache has contexts that were resolved, and it has all of them as long as they fit. -/
structure Fills (served : Finset Context) (cache : ResolutionCache) : Prop where
  distinct : cache.contexts.KeysDistinct
  within : ∀ context ∈ cache.contexts.keys, context ∈ served
  complete : served.card ≤ cache.capacity → ∀ context ∈ served, context ∈ cache.contexts.keys

theorem mem_keys_of_get? {issued : IssuedPayload} (held : cache.get? context = some issued) :
    context ∈ cache.contexts.keys := by
  rw [← OrderedMap.contains_iff_mem_keys]
  exact Option.isSome_iff_exists.mpr ⟨issued, held⟩

theorem fills_of_empty (noContexts : cache.contexts = ∅) : cache.Fills ∅ := by
  refine ⟨?_, ?_, fun _ context resolved => absurd resolved (Finset.notMem_empty context)⟩
  · rw [noContexts]
    exact OrderedMap.keysDistinct_empty
  · rw [noContexts]
    exact fun context present => absurd present List.not_mem_nil

theorem Fills.of_same (fills : cache.Fills served) (sameCapacity : after.capacity = cache.capacity)
    (sameTable : after.contexts = cache.contexts) : after.Fills served := by
  obtain ⟨distinct, within, complete⟩ := fills
  rw [← sameTable] at distinct within complete
  rw [← sameCapacity] at complete
  exact ⟨distinct, within, complete⟩

theorem Fills.size_lt (fills : cache.Fills served) (absent : context ∉ cache.contexts.keys)
    (fits : (insert context served).card ≤ cache.capacity) :
    cache.contexts.size < cache.capacity := by
  by_cases known : context ∈ served
  · rw [Finset.insert_eq_of_mem known] at fits
    exact absurd (fills.complete fits context known) absent
  · rw [Finset.card_insert_of_notMem known] at fits
    have within : cache.contexts.keys.toFinset ⊆ served :=
      fun other present => fills.within other (List.mem_toFinset.mp present)
    calc
      cache.contexts.size = cache.contexts.keys.length := (List.length_map Prod.fst).symm
      _ = cache.contexts.keys.toFinset.card := (List.toFinset_card_of_nodup fills.distinct).symm
      _ ≤ served.card := Finset.card_le_card within
      _ < cache.capacity := fits

/-- One context more that fits: the table need not be emptied. -/
theorem Fills.contexts_put (fills : cache.Fills served) (missing : cache.get? context = none)
    (fits : (insert context served).card ≤ cache.capacity) (issued : IssuedPayload) :
    (cache.put context issued).contexts = cache.contexts.insert context issued := by
  have absent := (OrderedMap.get?_eq_none_iff cache.contexts context).mp missing
  rw [contexts_put_of_missing missing, if_neg (Nat.not_le_of_lt (fills.size_lt absent fits))]

theorem Fills.put (fills : cache.Fills served) (missing : cache.get? context = none)
    (issued : IssuedPayload) : (cache.put context issued).Fills (insert context served) := by
  refine ⟨?_, ?_, ?_⟩
  · rw [contexts_put_of_missing missing]
    split
    · exact OrderedMap.keysDistinct_empty.insert context issued
    · exact fills.distinct.insert context issued
  · intro other present
    rw [← OrderedMap.contains_iff_mem_keys] at present
    obtain ⟨found, held⟩ := Option.isSome_iff_exists.mp present
    rcases get?_put held with ⟨here, _⟩ | before
    · exact here ▸ Finset.mem_insert_self other served
    · exact Finset.mem_insert_of_mem (fills.within other (mem_keys_of_get? before))
  · intro fits other resolved
    have fewer : served.card ≤ cache.capacity :=
      (Finset.card_le_card (Finset.subset_insert context served)).trans fits
    rw [fills.contexts_put missing fits, OrderedMap.keys_insert]
    have absent := (OrderedMap.get?_eq_none_iff cache.contexts context).mp missing
    rw [if_neg absent, List.mem_append, List.mem_singleton]
    rcases Finset.mem_insert.mp resolved with here | before
    · exact Or.inr here
    · exact Or.inl (fills.complete fewer other before)

end ResolutionCache

/-! ### One call -/

namespace Stylesheet

variable {config : EngineConfig} {sheet after : Stylesheet} {context other : Context}
  {issued found : IssuedPayload} {among : Context → Prop} {served : Finset Context}

theorem Confined.mono {wider : Context → Prop} (confined : Confined issued among sheet)
    (widens : ∀ context, among context → wider context) : Confined issued wider sheet :=
  ⟨confined.counted, fun context found held same =>
    (confined.only context found held same).imp_right (widens context)⟩

theorem Issues.sameTable_of_error {problem : StyleError}
    (issues : Issues sheet context after (.error problem)) :
    after.cache.contexts = sheet.cache.contexts := by
  cases issues
  assumption

theorem Issues.held (issues : Issues sheet context after (.ok issued))
    (enabled : sheet.config.cacheEnabled = true) : after.cache.get? context = some issued := by
  unfold ResolutionCache.get?
  cases issues with
  | shared _ _ held sameTable _ =>
      rw [sameTable]
      exact held
  | stored missing payload put _ =>
      rw [put, ResolutionCache.contexts_put_of_missing missing, OrderedMap.get?_insert, if_pos rfl]
  | unshared disabled payload _ _ =>
      rw [enabled] at disabled
      cases disabled

theorem Issues.fills (issues : Issues sheet context after (.ok issued))
    (enabled : sheet.config.cacheEnabled = true)
    (sameCapacity : after.cache.capacity = sheet.cache.capacity)
    (fills : sheet.cache.Fills served) : after.cache.Fills (insert context served) := by
  cases issues with
  | shared _ _ held sameTable _ =>
      have known := fills.within context (ResolutionCache.mem_keys_of_get? held)
      rw [Finset.insert_eq_of_mem known]
      exact fills.of_same sameCapacity sameTable
  | stored missing payload put _ =>
      exact (fills.put missing ⟨sheet.issued, payload⟩).of_same sameCapacity put
  | unshared disabled payload _ _ =>
      rw [enabled] at disabled
      cases disabled

theorem Issues.keeps (issues : Issues sheet context after (.ok issued))
    (fills : sheet.cache.Fills served)
    (fits : (insert context served).card ≤ sheet.cache.capacity)
    (held : sheet.cache.get? other = some found) : after.cache.get? other = some found := by
  unfold ResolutionCache.get? at held ⊢
  cases issues with
  | shared _ _ _ sameTable _ => rw [sameTable, held]
  | stored missing payload put _ =>
      have different : context ≠ other := by
        intro same
        rw [same, ResolutionCache.get?, held] at missing
        cases missing
      rw [put, fills.contexts_put missing fits, OrderedMap.get?_insert, if_neg different, held]
  | unshared _ payload sameTable _ => rw [sameTable, held]

namespace Effect

variable {entry : Call × Answer}

/-- A change of the rules takes an object out of the cache, and it never gets in again. -/
theorem confined (effect : Effect sheet entry after) (coherent : Coherent config sheet)
    (before : Confined issued among sheet) :
    Confined issued (fun context => among context ∧ Call.changesRules entry = false) after := by
  cases effect with
  | changed store changes =>
      refine ⟨before.counted, fun context found held => ?_⟩
      cases held
  | ignored keeps nothing => exact before.mono fun _ inside => ⟨inside, keeps⟩
  | refused keeps nothing context problem fails =>
      exact ((coherent.resolve context).1.confined before).mono fun _ inside => ⟨inside, keeps⟩
  | served keeps context issued serves resolved =>
      exact ((coherent.resolve context).1.confined before).mono fun _ inside => ⟨inside, keeps⟩

theorem fills (effect : Effect sheet entry after) (coherent : Coherent config sheet)
    (enabled : config.cacheEnabled = true) (before : sheet.cache.Fills served) :
    after.cache.Fills (Call.keepServed served entry) := by
  cases effect with
  | changed store changes =>
      rw [Call.keepServed_of_change changes]
      exact ResolutionCache.fills_of_empty rfl
  | ignored keeps nothing =>
      rw [Call.keepServed_of_none keeps nothing]
      exact before
  | refused keeps nothing context problem fails =>
      obtain ⟨issues, coherentAfter⟩ := coherent.resolve context
      rw [fails] at issues
      rw [Call.keepServed_of_none keeps nothing]
      exact before.of_same (coherentAfter.sameCapacity.trans coherent.sameCapacity.symm)
        issues.sameTable_of_error
  | served keeps context issued serves resolved =>
      obtain ⟨issues, coherentAfter⟩ := coherent.resolve context
      rw [resolved] at issues
      rw [Call.keepServed_of_some keeps serves]
      exact issues.fills (coherent.sameConfig ▸ enabled)
        (coherentAfter.sameCapacity.trans coherent.sameCapacity.symm) before

theorem keeps (effect : Effect sheet entry after) (coherent : Coherent config sheet)
    (fills : sheet.cache.Fills served) (unchanged : Call.changesRules entry = false)
    (fits : (Call.keepServed served entry).card ≤ sheet.cache.capacity)
    (held : sheet.cache.get? other = some found) : after.cache.get? other = some found := by
  cases effect with
  | changed store changes =>
      rw [unchanged] at changes
      cases changes
  | ignored _ nothing => exact held
  | refused _ nothing context problem fails =>
      have issues := (coherent.resolve context).1
      rw [fails] at issues
      rw [ResolutionCache.get?, issues.sameTable_of_error]
      exact held
  | served _ context issued serves resolved =>
      have issues := (coherent.resolve context).1
      rw [resolved] at issues
      rw [Call.keepServed_of_some unchanged serves] at fits
      exact issues.keeps fills fits held

end Effect

/-! ### Any run of calls -/

namespace Coherent

theorem resolve_of_held (coherent : Coherent config sheet) (enabled : config.cacheEnabled = true)
    (held : sheet.cache.get? context = some issued) :
    (sheet.resolve context).1 = .ok issued := by
  have turnedOn : sheet.config.cacheEnabled = true := coherent.sameConfig ▸ enabled
  have found := (coherent.current.carries_sync.get?_eq context).trans held
  simp only [Stylesheet.resolve, turnedOn, if_true, found]

theorem confined_run (coherent : Coherent config sheet) (confined : Confined issued among sheet)
    (calls : List Call) :
    Confined issued (fun context => among context ∧
      ∀ entry ∈ Call.record Stylesheet.answer sheet calls, Call.changesRules entry = false)
      (Call.run Stylesheet.answer sheet calls).2 := by
  induction calls generalizing sheet among with
  | nil =>
      exact confined.mono fun _ inside => ⟨inside, fun _ present => absurd present List.not_mem_nil⟩
  | cons call rest ih =>
      have next := (sheet.effect_answer call).confined coherent confined
      refine (ih (coherent.answer call) next).mono ?_
      rintro context ⟨⟨inside, keeps⟩, keepsRest⟩
      exact ⟨inside, List.forall_mem_cons.mpr ⟨keeps, keepsRest⟩⟩

theorem fills_run (coherent : Coherent config sheet) (enabled : config.cacheEnabled = true)
    (fills : sheet.cache.Fills served) (calls : List Call) :
    (Call.run Stylesheet.answer sheet calls).2.cache.Fills
      ((Call.record Stylesheet.answer sheet calls).foldl Call.keepServed served) := by
  induction calls generalizing sheet served with
  | nil => exact fills
  | cons call rest ih =>
      exact ih (coherent.answer call) ((sheet.effect_answer call).fills coherent enabled fills)

/-- While the rules stay as they are, and the contexts fit, nothing leaves the cache. -/
theorem keeps_run (coherent : Coherent config sheet) (enabled : config.cacheEnabled = true)
    (fills : sheet.cache.Fills served) (held : sheet.cache.get? other = some found)
    (calls : List Call)
    (unchanged : ∀ entry ∈ Call.record Stylesheet.answer sheet calls,
      Call.changesRules entry = false)
    (fits : ((Call.record Stylesheet.answer sheet calls).foldl Call.keepServed served).card ≤
      max config.maxCacheEntries 1) :
    (Call.run Stylesheet.answer sheet calls).2.cache.get? other = some found := by
  induction calls generalizing sheet served with
  | nil => exact held
  | cons call rest ih =>
      obtain ⟨keeps, keepsRest⟩ := List.forall_mem_cons.mp unchanged
      have fitsNow : (Call.keepServed served (call, (sheet.answer call).1)).card ≤
          sheet.cache.capacity := by
        rw [coherent.sameCapacity]
        exact (Finset.card_le_card (Call.subset_foldl_keepServed keepsRest)).trans fits
      have effect := sheet.effect_answer call
      exact ih (coherent.answer call) (effect.fills coherent enabled fills)
        (effect.keeps coherent fills keeps fitsNow held) keepsRest fits

end Coherent

/-- What is answered twice with one object is one context, without a change of the rules in between,
and with the cache turned on. With the cache turned on, and no more contexts resolved since the last
change than fit into it, a context is answered with one object. -/
theorem objects_shared_while_unchanged (config : EngineConfig) (before between : List Call)
    (first : Context) :
    let earlier := (Call.run answer (ofConfig config) before).2
    let middle := (earlier.resolve first).2
    let later := (Call.run answer middle between).2
    let unchanged := ∀ entry ∈ Call.record answer middle between, Call.changesRules entry = false
    let entries := Call.record answer (ofConfig config)
      (before ++ .resolve first :: (between ++ [.resolve first]))
    (∀ second issued again, (earlier.resolve first).1 = .ok issued →
      (later.resolve second).1 = .ok again → again.number = issued.number →
      again = issued ∧ config.cacheEnabled = true ∧ second = first ∧ unchanged) ∧
    (∀ issued, config.cacheEnabled = true → (earlier.resolve first).1 = .ok issued → unchanged →
      (Call.servedSinceChange entries).card ≤ max 1 config.maxCacheEntries →
      (later.resolve first).1 = .ok issued) := by
  intro earlier middle later unchanged entries
  have coherentEarlier : Coherent config earlier := (Coherent.ofConfig config).run before
  obtain ⟨issuesFirst, coherentMiddle⟩ := coherentEarlier.resolve first
  have coherentLater : Coherent config later := coherentMiddle.run between
  refine ⟨?_, ?_⟩
  · intro second issued again outcome outcomeAgain same
    have issuesSecond := (coherentLater.resolve second).1
    rw [outcome] at issuesFirst
    rw [outcomeAgain] at issuesSecond
    have confined := coherentMiddle.confined_run
      (issuesFirst.confined_answer coherentEarlier.labelled) between
    cases issuesSecond with
    | shared enabled _ held _ _ =>
        obtain ⟨sameObject, sameContext, keeps⟩ := confined.only second again held same
        exact ⟨sameObject, coherentLater.sameConfig ▸ enabled, sameContext, keeps⟩
    | stored _ payload _ _ => exact absurd same.symm (Nat.ne_of_lt confined.counted)
    | unshared _ payload _ _ => exact absurd same.symm (Nat.ne_of_lt confined.counted)
  · intro issued enabled outcome keeps fits
    have fillsEarlier := (Coherent.ofConfig config).fills_run enabled
      (ResolutionCache.fills_of_empty rfl) before
    have fillsMiddle := (earlier.effect_answer (.resolve first)).fills coherentEarlier enabled
      fillsEarlier
    rw [outcome] at issuesFirst
    have held : middle.cache.get? first = some issued :=
      issuesFirst.held (coherentEarlier.sameConfig ▸ enabled)
    apply coherentLater.resolve_of_held enabled
    apply coherentMiddle.keeps_run enabled fillsMiddle held between keeps
    refine (Finset.card_le_card ?_).trans (fits.trans (Nat.max_comm _ _).le)
    -- The second resolution of the context is part of the run, and it only adds to what counts.
    have keepsLast : Call.changesRules
        (.resolve first, (later.answer (.resolve first)).1) = false := rfl
    have split : entries = Call.record answer (ofConfig config) before ++
        (.resolve first, (earlier.answer (.resolve first)).1) ::
          (Call.record answer middle between ++
            [(.resolve first, (later.answer (.resolve first)).1)]) := by
      unfold entries
      rw [Call.record_append]
      congr 1
      exact congrArg (_ :: ·) (Call.record_append answer middle between [.resolve first])
    rw [split, Call.servedSinceChange, List.foldl_append, List.foldl_cons, List.foldl_append]
    exact Call.subset_keepServed keepsLast

end Stylesheet

/-! A message and a label take up all the room there is. Whatever else is tried meanwhile fails. -/

namespace Sample

def roomForTwo : EngineConfig := { maxCacheEntries := 2 }

def loop : Context := .ofRoot (.ofName "loop")

def warmUp : List Call :=
  [.insertRule "loop" ⟨none, none, ["loop"]⟩ .explicit, .getProps message none]

def attempts : List Call :=
  [.insertRule "" {} .explicit, .insertRules [] .default, .resolve loop, .getProps message none]

/-- What can be decided of an answer: the number of an object, and whether it has any entry. -/
def seen (answer : Except StyleError IssuedPayload) : Except StyleError (Nat × Bool) :=
  answer.map fun issued => (issued.number, issued.payload.isEmpty)

theorem answer_of_seen {answer : Except StyleError IssuedPayload} {number : Nat}
    (isSeen : seen answer = .ok (number, true)) : answer = .ok ⟨number, ∅⟩ := by
  match answer with
  | .ok ⟨_, ⟨none, none⟩⟩ =>
      cases isSeen
      rfl
  | .ok ⟨_, ⟨some _, _⟩⟩ => cases isSeen
  | .ok ⟨_, ⟨none, some _⟩⟩ => cases isSeen

theorem error_of_seen {answer : Except StyleError IssuedPayload} {problem : StyleError}
    (isSeen : seen answer = .error problem) : answer = .error problem := by
  cases answer with
  | ok issued => cases isSeen
  | error other =>
      cases isSeen
      rfl

end Sample

namespace Stylesheet

/-- The label is the second object that is issued, and it stays in use. -/
theorem label_keeps_its_object :
    let earlier := (Call.run answer (ofConfig Sample.roomForTwo) Sample.warmUp).2
    let later := (Call.run answer (earlier.resolve Sample.label).2 Sample.attempts).2
    (earlier.resolve Sample.label).1 = .ok ⟨1, ∅⟩ ∧
      (later.resolve Sample.loop).1 = .error (.cyclicMixin ["loop", "loop"]) ∧
      (later.resolve Sample.label).1 = .ok ⟨1, ∅⟩ := by
  have issued : ((Call.run answer (ofConfig Sample.roomForTwo) Sample.warmUp).2.resolve
      Sample.label).1 = .ok ⟨1, ∅⟩ := Sample.answer_of_seen (by decide +kernel)
  refine ⟨issued, Sample.error_of_seen (by decide +kernel), ?_⟩
  exact (objects_shared_while_unchanged Sample.roomForTwo Sample.warmUp Sample.attempts
    Sample.label).2 ⟨1, ∅⟩ rfl issued (by decide +kernel) (by decide +kernel)

end Stylesheet

end Cascade
