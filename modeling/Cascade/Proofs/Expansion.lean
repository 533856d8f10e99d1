import Cascade.Proofs.Merging
import Cascade.Resolution.Basic
set_option autoImplicit false

/-! The steps of a resolution. A visit succeeds as soon as every mixin of every matching rule can
be entered; its depth then bounds the depths below it and is reached by one of them. -/

namespace Cascade

namespace Expansion

/-! ### The loops as folds -/

section Folds

variable {m : Type → Type} [Monad m] [LawfulMonad m]

def enterNext (enter : String → ResolvedPayload → m Expansion) (expansion : Expansion)
    (name : String) : m Expansion :=
  expansion.descend <$> enter name expansion.payload

def expandNext (expand : Rule → m Expansion) (expansion : Expansion) (rule : Rule) : m Expansion :=
  if rule.payload.mixins.isEmpty then pure (expansion.merge (ofRule rule))
  else expansion.merge <$> expand rule

theorem mergeMixins_eq_foldlM (enter : String → ResolvedPayload → m Expansion)
    (expansion : Expansion) (names : List String) :
    mergeMixins enter expansion names = names.foldlM (enterNext enter) expansion := by
  induction names generalizing expansion with
  | nil => rfl
  | cons name rest ih =>
      rw [mergeMixins, List.foldlM_cons, enterNext, bind_map_left]
      exact congrArg _ (funext fun nested => ih (expansion.descend nested))

theorem mergeRules_eq_foldlM (expand : Rule → m Expansion) (expansion : Expansion)
    (rules : List Rule) :
    mergeRules expand expansion rules = rules.foldlM (expandNext expand) expansion := by
  induction rules generalizing expansion with
  | nil => rfl
  | cons rule rest ih =>
      rw [mergeRules, List.foldlM_cons, expandNext]
      split
      · rw [pure_bind]
        exact ih (expansion.merge (ofRule rule))
      · rw [bind_map_left]
        exact congrArg _ (funext fun contribution => ih (expansion.merge contribution))

/-- Rules without mixins go the same way as the others, only shorter. -/
theorem expandNext_expandRule (enter : String → ResolvedPayload → m Expansion)
    (expansion : Expansion) (rule : Rule) :
    expandNext (expandRule enter) expansion rule = expansion.merge <$> expandRule enter rule := by
  unfold expandNext
  split
  · next plain =>
      rw [expandRule, List.isEmpty_iff.mp plain, mergeMixins, map_pure]
  · rfl

end Folds

/-! ### Folds that succeed -/

theorem bind_eq_ok {α β : Type} (first : Except StyleError α) (next : α → Except StyleError β)
    (result : β) :
    (first >>= next) = .ok result ↔ ∃ value, first = .ok value ∧ next value = .ok result := by
  cases first with
  | error problem => simp [bind, Except.bind]
  | ok value => simp [bind, Except.bind]

theorem map_eq_ok {α β : Type} (first : Except StyleError α) (change : α → β) (result : β) :
    (change <$> first) = .ok result ↔ ∃ value, first = .ok value ∧ change value = result := by
  cases first with
  | error problem => simp [Functor.map, Except.map]
  | ok value => simp [Functor.map, Except.map]

section Success

variable {ι : Type} {step : Expansion → ι → Except StyleError Expansion}

theorem foldlM_exists {items : List ι} (expansion : Expansion)
    (succeeds : ∀ item ∈ items, ∀ before, ∃ after, step before item = .ok after) :
    ∃ result, items.foldlM step expansion = .ok result := by
  induction items generalizing expansion with
  | nil => exact ⟨expansion, rfl⟩
  | cons item rest ih =>
      obtain ⟨after, first⟩ := succeeds item List.mem_cons_self expansion
      obtain ⟨result, continued⟩ :=
        ih after (fun other inside => succeeds other (List.mem_cons_of_mem item inside))
      refine ⟨result, ?_⟩
      rw [List.foldlM_cons, bind_eq_ok]
      exact ⟨after, first, continued⟩

theorem foldlM_payload {emitted : ι → List ResolvedPayload}
    (merges : ∀ before item after, step before item = .ok after →
      after.payload = before.payload.mergeAll (emitted item))
    {items : List ι} {expansion result : Expansion}
    (folded : items.foldlM step expansion = .ok result) :
    result.payload = expansion.payload.mergeAll (items.flatMap emitted) := by
  induction items generalizing expansion with
  | nil =>
      cases folded
      rfl
  | cons item rest ih =>
      rw [List.foldlM_cons, bind_eq_ok] at folded
      obtain ⟨after, first, continued⟩ := folded
      rw [ih continued, merges expansion item after first, List.flatMap_cons,
        ResolvedPayload.mergeAll_append]

/-- The depth of a fold bounds the depths of all its parts, and is the depth of one of them
unless it was there from the start. -/
theorem foldlM_depth {Part : ι → Nat → Prop}
    (deepens : ∀ before item after, step before item = .ok after →
      ∃ depth, Part item depth ∧ after.depth = max before.depth depth)
    {items : List ι} {expansion result : Expansion}
    (folded : items.foldlM step expansion = .ok result) :
    expansion.depth ≤ result.depth ∧
      (∀ item ∈ items, ∃ depth, Part item depth ∧ depth ≤ result.depth) ∧
      (result.depth = expansion.depth ∨ ∃ item ∈ items, Part item result.depth) := by
  induction items generalizing expansion with
  | nil =>
      cases folded
      exact ⟨Nat.le_refl _, fun item inside => absurd inside List.not_mem_nil, Or.inl rfl⟩
  | cons item rest ih =>
      rw [List.foldlM_cons, bind_eq_ok] at folded
      obtain ⟨after, first, continued⟩ := folded
      obtain ⟨depth, isPart, grown⟩ := deepens expansion item after first
      obtain ⟨above, parts, attained⟩ := ih continued
      refine ⟨by omega, fun other inside => ?_, ?_⟩
      · rcases List.mem_cons.mp inside with same | later
        · exact ⟨depth, same ▸ isPart, by omega⟩
        · exact parts other later
      · rcases attained with kept | ⟨other, later, isOther⟩
        · rcases Nat.le_total depth expansion.depth with lower | higher
          · exact Or.inl (by omega)
          · have same : result.depth = depth := by omega
            exact Or.inr ⟨item, List.mem_cons_self, same ▸ isPart⟩
        · exact Or.inr ⟨other, List.mem_cons_of_mem item later, isOther⟩

end Success

/-! ### Rules and their mixins -/

section Rules

variable {enter : String → ResolvedPayload → Except StyleError Expansion} {rule : Rule}
  {rules : List Rule} {payload : ResolvedPayload} {result : Expansion}

theorem expandRule_exists
    (entered : ∀ name ∈ rule.payload.mixins, ∀ payload, ∃ nested, enter name payload = .ok nested) :
    ∃ result, expandRule enter rule = .ok result := by
  rw [expandRule, mergeMixins_eq_foldlM]
  apply foldlM_exists
  intro name listed before
  obtain ⟨nested, succeeds⟩ := entered name listed before.payload
  exact ⟨before.descend nested, (map_eq_ok _ _ _).mpr ⟨nested, succeeds, rfl⟩⟩

theorem mergeRules_exists (expansion : Expansion)
    (expanded : ∀ rule ∈ rules, ∃ contribution, expandRule enter rule = .ok contribution) :
    ∃ result, mergeRules (expandRule enter) expansion rules = .ok result := by
  rw [mergeRules_eq_foldlM]
  apply foldlM_exists
  intro rule inside before
  obtain ⟨contribution, succeeds⟩ := expanded rule inside
  rw [expandNext_expandRule]
  exact ⟨before.merge contribution, (map_eq_ok _ _ _).mpr ⟨contribution, succeeds, rfl⟩⟩

/-- A chain below a rule starts with one of its mixins. -/
theorem expandRule_depth (expanded : expandRule enter rule = .ok result) :
    (∀ name ∈ rule.payload.mixins, ∃ payload nested,
      enter name payload = .ok nested ∧ nested.depth + 1 ≤ result.depth) ∧
    (result.depth = 0 ∨ ∃ name ∈ rule.payload.mixins, ∃ payload nested,
      enter name payload = .ok nested ∧ result.depth = nested.depth + 1) := by
  rw [expandRule, mergeMixins_eq_foldlM] at expanded
  have deepens : ∀ before name after, enterNext enter before name = .ok after →
      ∃ depth, (∃ payload nested, enter name payload = .ok nested ∧ depth = nested.depth + 1) ∧
        after.depth = max before.depth depth := by
    intro before name after entered
    obtain ⟨nested, succeeds, rfl⟩ := (map_eq_ok _ _ _).mp entered
    exact ⟨nested.depth + 1, ⟨before.payload, nested, succeeds, rfl⟩, rfl⟩
  obtain ⟨_, parts, attained⟩ := foldlM_depth deepens expanded
  refine ⟨fun name listed => ?_, attained⟩
  obtain ⟨depth, ⟨payload, nested, succeeds, rfl⟩, bounded⟩ := parts name listed
  exact ⟨payload, nested, succeeds, bounded⟩

theorem mergeRules_depth
    (merged : mergeRules (expandRule enter) ⟨payload, 0⟩ rules = .ok result) :
    (∀ rule ∈ rules, ∃ contribution,
      expandRule enter rule = .ok contribution ∧ contribution.depth ≤ result.depth) ∧
    (result.depth = 0 ∨ ∃ rule ∈ rules, ∃ contribution,
      expandRule enter rule = .ok contribution ∧ result.depth = contribution.depth) := by
  rw [mergeRules_eq_foldlM] at merged
  have deepens : ∀ before rule after, expandNext (expandRule enter) before rule = .ok after →
      ∃ depth, (∃ contribution, expandRule enter rule = .ok contribution ∧
          depth = contribution.depth) ∧
        after.depth = max before.depth depth := by
    intro before rule after expanded
    rw [expandNext_expandRule, map_eq_ok] at expanded
    obtain ⟨contribution, succeeds, rfl⟩ := expanded
    exact ⟨contribution.depth, ⟨contribution, succeeds, rfl⟩, rfl⟩
  obtain ⟨_, parts, attained⟩ := foldlM_depth deepens merged
  refine ⟨fun rule inside => ?_, attained⟩
  obtain ⟨depth, ⟨contribution, succeeds, rfl⟩, bounded⟩ := parts rule inside
  exact ⟨contribution, succeeds, bounded⟩

end Rules

end Expansion

namespace Resolution

variable {store : RuleStore} {limit room : Nat} {path : List String} {context : Context}
  {name : String}

theorem visit_eq (payload : ResolvedPayload) :
    visit store limit room path context payload =
      Expansion.mergeRules (Expansion.expandRule (enter store limit room path context))
        ⟨payload, 0⟩ (store.matching context) := rfl

theorem enter_of_mem (repeated : name ∈ path) (payload : ResolvedPayload) :
    enter store limit room path context name payload = .error (.cyclicMixin (path ++ [name])) :=
  Resolver.enter_of_mem repeated payload

theorem enter_zero (fresh : name ∉ path) (payload : ResolvedPayload) :
    enter store limit 0 path context name payload = .error (.mixinDepthExceeded name limit) :=
  Resolver.enter_zero fresh payload

theorem enter_succ {left : Nat} (fresh : name ∉ path) (payload : ResolvedPayload) :
    enter store limit (left + 1) path context name payload =
      visit store limit left (path ++ [name]) (context.forMixin name) payload :=
  Resolver.enter_succ fresh payload

theorem enter_eq_ok_iff (name : String) (payload : ResolvedPayload) (nested : Expansion) :
    enter store limit room path context name payload = .ok nested ↔
      name ∉ path ∧ ∃ left, room = left + 1 ∧
        visit store limit left (path ++ [name]) (context.forMixin name) payload = .ok nested := by
  by_cases repeated : name ∈ path
  · simp [enter_of_mem repeated, repeated]
  · cases room with
    | zero => simp [enter_zero repeated]
    | succ left => simp [enter_succ repeated, repeated]

end Resolution

theorem RuleStore.resolve_eq_ok_iff {store : RuleStore} {limit : Nat} {context : Context}
    {payload : ResolvedPayload} :
    store.resolve limit context = .ok payload ↔
      ∃ expansion, Resolution.visit store limit limit [] context ∅ = .ok expansion ∧
        expansion.payload = payload :=
  Expansion.map_eq_ok _ _ _

end Cascade
