import Cascade.Proofs.References
import Cascade.Proofs.Expansion
set_option autoImplicit false

/-! Two resolutions side by side. Depths are counted for the memo alone, so that a resolution is a
pass over payloads. Main statements: if entering a mixin gives the same in two passes, unless the
first fails for a reason that is let pass, so do the passes as a whole; and a mixin is entered alike
if what is below it is visited alike. -/

namespace Cascade

/-! ### Payloads without depths -/

theorem map_foldlM {σ τ ι : Type} {m : Type → Type} [Monad m] [LawfulMonad m] (view : σ → τ)
    {step : σ → ι → m σ} {shown : τ → ι → m τ}
    (same : ∀ state item, view <$> step state item = shown (view state) item)
    (items : List ι) (state : σ) :
    view <$> items.foldlM step state = items.foldlM shown (view state) := by
  induction items generalizing state with
  | nil => rw [List.foldlM_nil, List.foldlM_nil, map_pure]
  | cons item rest ih =>
      rw [List.foldlM_cons, List.foldlM_cons, map_bind, ← same, bind_map_left]
      exact congrArg _ (funext ih)

namespace Expansion

/-- Enters the mixins of the rule, in order, below what it sets itself, and merges all of this below
the payload. -/
def contribute (enter : String → ResolvedPayload → Except StyleError ResolvedPayload)
    (payload : ResolvedPayload) (rule : Rule) : Except StyleError ResolvedPayload :=
  payload.mergeAbsent <$>
    rule.payload.mixins.foldlM (fun merged name => enter name merged) rule.ownPayload

variable {enter : String → ResolvedPayload → Except StyleError Expansion}
  {shown : String → ResolvedPayload → Except StyleError ResolvedPayload}

theorem map_payload_expandRule
    (same : ∀ name merged, payload <$> enter name merged = shown name merged) (rule : Rule) :
    payload <$> expandRule enter rule =
      rule.payload.mixins.foldlM (fun merged name => shown name merged) rule.ownPayload := by
  rw [expandRule, mergeMixins_eq_foldlM]
  refine map_foldlM payload (fun expansion name => ?_) rule.payload.mixins (ofRule rule)
  rw [← same, enterNext, Functor.map_map]
  rfl

theorem map_payload_mergeRules
    (same : ∀ name merged, payload <$> enter name merged = shown name merged)
    (expansion : Expansion) (rules : List Rule) :
    payload <$> mergeRules (expandRule enter) expansion rules =
      rules.foldlM (contribute shown) expansion.payload := by
  rw [mergeRules_eq_foldlM]
  refine map_foldlM payload (fun before rule => ?_) rules expansion
  rw [expandNext_expandRule, Functor.map_map, contribute, ← map_payload_expandRule same,
    Functor.map_map]
  rfl

end Expansion

namespace Resolution

variable {store : RuleStore} {limit room : Nat} {path : List String} {context : Context}

def enterPayload (store : RuleStore) (limit room : Nat) (path : List String) (context : Context)
    (name : String) (payload : ResolvedPayload) : Except StyleError ResolvedPayload :=
  Expansion.payload <$> enter store limit room path context name payload

def visitPayload (store : RuleStore) (limit room : Nat) (path : List String) (context : Context)
    (payload : ResolvedPayload) : Except StyleError ResolvedPayload :=
  Expansion.payload <$> visit store limit room path context payload

theorem visitPayload_eq (payload : ResolvedPayload) :
    visitPayload store limit room path context payload =
      (store.matching context).foldlM
        (Expansion.contribute (enterPayload store limit room path context)) payload := by
  rw [visitPayload, visit_eq]
  exact Expansion.map_payload_mergeRules (fun _ _ => rfl) ⟨payload, 0⟩ (store.matching context)

theorem enterPayload_of_repeat {name : String} (again : name ∈ path) (payload : ResolvedPayload) :
    enterPayload store limit room path context name payload =
      .error (.cyclicMixin (path ++ [name])) := by
  rw [enterPayload, enter_of_mem again]
  rfl

theorem enterPayload_zero {name : String} (fresh : name ∉ path) (payload : ResolvedPayload) :
    enterPayload store limit 0 path context name payload =
      .error (.mixinDepthExceeded name limit) := by
  rw [enterPayload, enter_zero fresh]
  rfl

theorem enterPayload_succ {name : String} (fresh : name ∉ path) (payload : ResolvedPayload) :
    enterPayload store limit (room + 1) path context name payload =
      visitPayload store limit room (path ++ [name]) (context.forMixin name) payload := by
  rw [enterPayload, enter_succ fresh, visitPayload]

end Resolution

theorem RuleStore.resolve_eq_visitPayload (store : RuleStore) (limit : Nat) (context : Context) :
    store.resolve limit context = Resolution.visitPayload store limit limit [] context ∅ := rfl

/-! ### Outcomes that persist -/

/-- The second outcome is the first one, unless that is an error which is let pass. -/
def Persists (passed : StyleError → Prop) {α : Type} (first second : Except StyleError α) : Prop :=
  (∀ problem, first = .error problem → ¬passed problem) → second = first

namespace Persists

variable {passed : StyleError → Prop} {α β ι : Type}

theorem refl (outcome : Except StyleError α) : Persists passed outcome outcome := fun _ => rfl

theorem of_passed {problem : StyleError} (isPassed : passed problem)
    (second : Except StyleError α) : Persists passed (.error problem) second :=
  fun notPassed => absurd isPassed (notPassed problem rfl)

theorem bind {first second : Except StyleError α} {next other : α → Except StyleError β}
    (start : Persists passed first second)
    (rest : ∀ value, Persists passed (next value) (other value)) :
    Persists passed (first >>= next) (second >>= other) := by
  intro notPassed
  cases first with
  | error problem =>
      have same := start fun other isOther => notPassed other (congrArg (· >>= next) isOther)
      rw [same]
      rfl
  | ok value =>
      have same := start fun other impossible => nomatch impossible
      rw [same]
      exact rest value notPassed

theorem map {first second : Except StyleError α} (start : Persists passed first second)
    (change : α → β) : Persists passed (change <$> first) (change <$> second) := by
  rw [map_eq_pure_bind, map_eq_pure_bind]
  exact start.bind fun value => refl (pure (change value))

theorem foldlM {step other : α → ι → Except StyleError α} {items : List ι}
    (each : ∀ item ∈ items, ∀ state, Persists passed (step state item) (other state item))
    (state : α) : Persists passed (items.foldlM step state) (items.foldlM other state) := by
  induction items generalizing state with
  | nil => exact refl (pure state)
  | cons item rest ih =>
      rw [List.foldlM_cons, List.foldlM_cons]
      apply (each item List.mem_cons_self state).bind
      intro value
      exact ih (fun later inside => each later (List.mem_cons_of_mem item inside)) value

theorem foldlM_matching {enter other : String → ResolvedPayload → Except StyleError ResolvedPayload}
    {store : RuleStore} {context : Context}
    (entered : ∀ name, store.Refers context context.name name → ∀ merged,
      Persists passed (enter name merged) (other name merged)) (payload : ResolvedPayload) :
    Persists passed ((store.matching context).foldlM (Expansion.contribute enter) payload)
      ((store.matching context).foldlM (Expansion.contribute other) payload) := by
  apply foldlM
  intro rule isMatching before
  refine map (foldlM (fun name listed merged => ?_) rule.ownPayload) before.mergeAbsent
  exact entered name ((RuleStore.refers_name_iff name).mpr ⟨rule, isMatching, listed⟩) merged

/-- A mixin that was entered before closes a circle either way. Where there is no room for it, an
error must be let pass, unless the second pass has no room for it either. -/
theorem enterPayload {store other : RuleStore} {limit bound room more : Nat} {path : List String}
    {context : Context} {name : String} {merged : ResolvedPayload} (above : room ≤ more)
    (full : room = 0 → passed (.mixinDepthExceeded name limit) ∨ more = 0 ∧ bound = limit)
    (nested : ∀ left further, room = left + 1 → more = further + 1 →
      Persists passed
        (Resolution.visitPayload store limit left (path ++ [name]) (context.forMixin name) merged)
        (Resolution.visitPayload other bound further (path ++ [name]) (context.forMixin name)
          merged)) :
    Persists passed (Resolution.enterPayload store limit room path context name merged)
      (Resolution.enterPayload other bound more path context name merged) := by
  by_cases again : name ∈ path
  · rw [Resolution.enterPayload_of_repeat again, Resolution.enterPayload_of_repeat again]
    exact refl _
  · cases room with
    | zero =>
        rw [Resolution.enterPayload_zero again]
        rcases full rfl with isPassed | ⟨rfl, rfl⟩
        · exact of_passed isPassed _
        · rw [Resolution.enterPayload_zero again]
          exact refl _
    | succ left =>
        obtain ⟨further, rfl⟩ := Nat.exists_eq_add_one.mpr (Nat.zero_lt_of_lt above)
        rw [Resolution.enterPayload_succ again, Resolution.enterPayload_succ again]
        exact nested left further rfl rfl

end Persists

end Cascade
