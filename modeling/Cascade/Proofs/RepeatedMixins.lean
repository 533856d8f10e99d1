import Cascade.Proofs.MixinLists
import Cascade.Proofs.Slots
set_option autoImplicit false

/-! Mixins that a rule lists more than once. What a mixin adds depends on where it is entered, but
not on what was merged before. So it succeeds again where it succeeded once, and then adds nothing.
Main statement: a store that lists each mixin once per rule resolves alike. -/

namespace Cascade

namespace Resolution

/-! ### Steps that do the same below every payload -/

/-- Merges one listing below any payload, or fails with one problem below all of them. -/
def Uniform (step : ResolvedPayload → Except StyleError ResolvedPayload) : Prop :=
  ∃ outcome : Except StyleError (List ResolvedPayload),
    ∀ payload, step payload = payload.mergeAll <$> outcome

theorem uniform_ok : Uniform Except.ok := ⟨.ok [], fun _ => rfl⟩

theorem uniform_error (problem : StyleError) : Uniform fun _ => .error problem :=
  ⟨.error problem, fun _ => rfl⟩

namespace Uniform

variable {step next : ResolvedPayload → Except StyleError ResolvedPayload}
  {enter : String → ResolvedPayload → Except StyleError ResolvedPayload}

theorem bind (start : Uniform step) (rest : Uniform next) :
    Uniform fun payload => step payload >>= next := by
  obtain ⟨outcome, first⟩ := start
  obtain ⟨further, second⟩ := rest
  cases outcome with
  | error problem =>
      exact ⟨.error problem, fun payload => congrArg (· >>= next) (first payload)⟩
  | ok listing =>
      refine ⟨(listing ++ ·) <$> further, fun payload => ?_⟩
      calc step payload >>= next
          = next (payload.mergeAll listing) := by rw [first]; rfl
        _ = (payload.mergeAll listing).mergeAll <$> further := second _
        _ = payload.mergeAll <$> (listing ++ ·) <$> further := by
            rw [Functor.map_map]
            simp only [ResolvedPayload.mergeAll_append]

theorem foldlM {ι : Type} {step : ResolvedPayload → ι → Except StyleError ResolvedPayload}
    {items : List ι} (each : ∀ item ∈ items, Uniform fun payload => step payload item) :
    Uniform fun payload => items.foldlM step payload := by
  induction items with
  | nil => exact uniform_ok
  | cons item rest ih =>
      simp only [List.foldlM_cons]
      exact (each item List.mem_cons_self).bind
        (ih fun later inside => each later (List.mem_cons_of_mem item inside))

theorem contribute {rule : Rule} (entered : ∀ name ∈ rule.payload.mixins, Uniform (enter name)) :
    Uniform fun payload => Expansion.contribute enter payload rule := by
  obtain ⟨outcome, merged⟩ := foldlM entered
  refine ⟨(rule.ownPayload :: ·) <$> outcome, fun payload => ?_⟩
  calc Expansion.contribute enter payload rule
      = payload.mergeAbsent <$> rule.ownPayload.mergeAll <$> outcome :=
        congrArg (payload.mergeAbsent <$> ·) (merged rule.ownPayload)
    _ = payload.mergeAll <$> (rule.ownPayload :: ·) <$> outcome := by
        rw [Functor.map_map, Functor.map_map]
        simp only [ResolvedPayload.mergeAbsent_mergeAll]
        rfl

end Uniform

theorem uniform_visitPayload {store : RuleStore} {limit room : Nat} {path : List String}
    {context : Context}
    (entered : ∀ name, Uniform (enterPayload store limit room path context name)) :
    Uniform (visitPayload store limit room path context) := by
  obtain ⟨outcome, visits⟩ : Uniform fun payload => (store.matching context).foldlM
      (Expansion.contribute (enterPayload store limit room path context)) payload :=
    Uniform.foldlM fun rule _ => Uniform.contribute fun name _ => entered name
  exact ⟨outcome, fun payload => (visitPayload_eq payload).trans (visits payload)⟩

theorem uniform_enterPayload (store : RuleStore) (limit room : Nat) (path : List String)
    (context : Context) (name : String) :
    Uniform (enterPayload store limit room path context name) := by
  induction room generalizing path context name with
  | zero =>
      by_cases again : name ∈ path
      · rw [funext (enterPayload_of_repeat again)]
        exact uniform_error _
      · rw [funext (enterPayload_zero again)]
        exact uniform_error _
  | succ left ih =>
      by_cases again : name ∈ path
      · rw [funext (enterPayload_of_repeat again)]
        exact uniform_error _
      · rw [funext (enterPayload_succ again)]
        exact uniform_visitPayload fun other => ih _ _ other

/-! ### Lists with repetitions -/

section Lists

variable {enter : String → ResolvedPayload → Except StyleError ResolvedPayload}
  {names : List String} {payload result : ResolvedPayload}

/-- What comes out of a list of mixins has everything that each of them adds. -/
theorem exists_part_of_foldlM (uniform : ∀ name, Uniform (enter name))
    (folded : names.foldlM (fun merged name => enter name merged) payload = .ok result) :
    ∃ listing, result = payload.mergeAll listing ∧ ∀ name ∈ names, ∃ part,
      part ⊆ listing ∧ ∀ before, enter name before = .ok (before.mergeAll part) := by
  induction names generalizing payload with
  | nil =>
      cases folded
      exact ⟨[], rfl, fun name inside => absurd inside List.not_mem_nil⟩
  | cons first rest ih =>
      rw [List.foldlM_cons, Expansion.bind_eq_ok] at folded
      obtain ⟨next, entered, continued⟩ := folded
      obtain ⟨outcome, always⟩ := uniform first
      rw [always, Expansion.map_eq_ok] at entered
      obtain ⟨part, rfl, rfl⟩ := entered
      obtain ⟨listing, rfl, parts⟩ := ih continued
      refine ⟨part ++ listing, (ResolvedPayload.mergeAll_append _ _ _).symm, ?_⟩
      intro name inside
      rcases List.mem_cons.mp inside with here | later
      · exact ⟨part, List.subset_append_left part listing, here ▸ always⟩
      · obtain ⟨other, within, same⟩ := parts name later
        exact ⟨other, List.Subset.trans within (List.subset_append_right part listing), same⟩

theorem foldlM_of_repeat (uniform : ∀ name, Uniform (enter name)) {name : String}
    (listed : name ∈ names) :
    (names ++ [name]).foldlM (fun merged name => enter name merged) payload =
      names.foldlM (fun merged name => enter name merged) payload := by
  rw [List.foldlM_append]
  cases folded : names.foldlM (fun merged name => enter name merged) payload with
  | error problem => rfl
  | ok result =>
      obtain ⟨listing, rfl, parts⟩ := exists_part_of_foldlM uniform folded
      obtain ⟨part, within, always⟩ := parts name listed
      calc [name].foldlM (fun merged name => enter name merged) (payload.mergeAll listing)
          = enter name (payload.mergeAll listing) := by rw [List.foldlM_cons]; exact bind_pure _
        _ = .ok ((payload.mergeAll listing).mergeAll part) := always _
        _ = .ok (payload.mergeAll listing) := by rw [ResolvedPayload.mergeAll_of_subset within]

theorem foldlM_eraseDups (uniform : ∀ name, Uniform (enter name)) (names : List String)
    (payload : ResolvedPayload) :
    names.eraseDups.foldlM (fun merged name => enter name merged) payload =
      names.foldlM (fun merged name => enter name merged) payload := by
  induction names using List.reverseRecOn with
  | nil => rfl
  | append_singleton front last ih =>
      rw [eraseDups_append_singleton]
      split
      · next repeated => rw [ih, foldlM_of_repeat uniform repeated]
      · rw [List.foldlM_append, List.foldlM_append, ih]

end Lists

end Resolution

namespace RuleStore

/-- The same rules, each of which lists a mixin only where it does so first. -/
def withoutRepeats (store : RuleStore) : RuleStore := store.mapMixins List.eraseDups

end RuleStore

namespace Resolution

variable {store : RuleStore} {limit room : Nat} {path : List String} {context : Context}

theorem visitPayload_of_enterPayload
    (entered : enterPayload store.withoutRepeats limit room path context =
      enterPayload store limit room path context) (payload : ResolvedPayload) :
    visitPayload store.withoutRepeats limit room path context payload =
      visitPayload store limit room path context payload := by
  have uniform := uniform_enterPayload store limit room path context
  rw [visitPayload_eq, visitPayload_eq, entered, RuleStore.withoutRepeats,
    RuleStore.matching_mapMixins, List.foldlM_map]
  congr 1
  funext before rule
  exact congrArg (before.mergeAbsent <$> ·)
    (foldlM_eraseDups uniform rule.payload.mixins rule.ownPayload)

theorem enterPayload_withoutRepeats (store : RuleStore) (limit room : Nat) (path : List String)
    (context : Context) :
    enterPayload store.withoutRepeats limit room path context =
      enterPayload store limit room path context := by
  induction room generalizing path context with
  | zero => rfl
  | succ left ih =>
      funext name payload
      by_cases again : name ∈ path
      · rw [enterPayload_of_repeat again, enterPayload_of_repeat again]
      · rw [enterPayload_succ again, enterPayload_succ again]
        exact visitPayload_of_enterPayload (ih _ _) payload

end Resolution

/-- A rule that lists a mixin again, at any level, changes neither a payload, the order of its keys
included, nor an error. -/
theorem RuleStore.repeated_mixins_change_nothing (store : RuleStore) (limit : Nat)
    (context : Context) :
    store.withoutRepeats.resolve limit context = store.resolve limit context := by
  rw [resolve_eq_visitPayload, resolve_eq_visitPayload]
  exact Resolution.visitPayload_of_enterPayload
    (Resolution.enterPayload_withoutRepeats store limit limit [] context) ∅

end Cascade
