import Cascade.Proofs.Tracking
set_option autoImplicit false

/-! What a resolution adds to its memory: expansions in the contexts that it reaches, and no others.
A rule that is being expanded is thus stored below itself only if its mixins lead back to it. -/

namespace Cascade

open Relation (ReflTransGen TransGen)

namespace Memoized

/-- Whatever is remembered afterwards was remembered before, or belongs to one of the contexts. -/
def Adds {α : Type} (Within : Context → Prop) (memoized : Memoized α) : Prop :=
  ∀ cache id context expansion,
    (memoized.run.run cache).2.getExpansion? id context = some expansion →
      cache.getExpansion? id context = some expansion ∨ Within context

section Composition

variable {α β : Type} {Within : Context → Prop}

theorem adds_pure (value : α) : Adds Within (pure value) :=
  fun _ _ _ _ held => Or.inl held

theorem adds_throw (problem : StyleError) : Adds Within (throw problem : Memoized α) :=
  fun _ _ _ _ held => Or.inl held

theorem Adds.bind {memoized : Memoized α} {next : α → Memoized β} (adds : Adds Within memoized)
    (continues : ∀ value, Adds Within (next value)) : Adds Within (memoized >>= next) := by
  intro cache id context expansion held
  have first := adds cache id context
  rw [run_bind] at held
  rcases ran : memoized.run.run cache with ⟨outcome, after⟩
  rw [ran] at held first
  cases outcome with
  | error problem => exact first expansion held
  | ok value =>
      rcases continues value after id context expansion held with between | within
      · exact first expansion between
      · exact Or.inr within

theorem Adds.map {memoized : Memoized α} (adds : Adds Within memoized) (change : α → β) :
    Adds Within (change <$> memoized) := by
  rw [map_eq_pure_bind]
  exact adds.bind fun value => adds_pure (change value)

theorem adds_foldlM {ι : Type} {step : α → ι → Memoized α} {items : List ι} (start : α)
    (adds : ∀ item ∈ items, ∀ before, Adds Within (step before item)) :
    Adds Within (items.foldlM step start) := by
  induction items generalizing start with
  | nil => exact adds_pure start
  | cons item rest ih =>
      rw [List.foldlM_cons]
      apply (adds item List.mem_cons_self start).bind
      intro value
      exact ih value fun other inside => adds other (List.mem_cons_of_mem item inside)

theorem Adds.mono {Wider : Context → Prop} {memoized : Memoized α} (adds : Adds Within memoized)
    (among : ∀ context, Within context → Wider context) : Adds Wider memoized :=
  fun cache id context expansion held =>
    (adds cache id context expansion held).imp_right (among context)

end Composition

/-! ### Resolution -/

variable {store : RuleStore} {limit room : Nat} {path : List String} {context : Context}

/-- The contexts of the mixins that a name leads to, its own among them. -/
def Reached (store : RuleStore) (context : Context) (name : String) (other : Context) : Prop :=
  ∃ further, ReflTransGen (store.Refers context) name further ∧ other = context.forMixin further

theorem reached_self (store : RuleStore) (context : Context) (name : String) :
    Reached store context name (context.forMixin name) :=
  ⟨name, .refl, rfl⟩

theorem Reached.of_refers {name next : String} {other : Context}
    (reached : Reached store (context.forMixin name) next other)
    (refers : store.Refers context name next) : Reached store context name other := by
  obtain ⟨further, leads, rfl⟩ := reached
  exact ⟨further, .head refers leads, rfl⟩

theorem adds_expandAnew {enter : String → ResolvedPayload → Memoized Expansion} {rule : Rule}
    {Within : Context → Prop}
    (entered : ∀ name ∈ rule.payload.mixins, ∀ payload, Adds Within (enter name payload)) :
    Adds Within (Expansion.expandRule enter rule) := by
  rw [Expansion.expandRule, Expansion.mergeMixins_eq_foldlM]
  apply adds_foldlM
  intro name listed expansion
  exact (entered name listed expansion.payload).map expansion.descend

theorem adds_expandRule {enter : String → ResolvedPayload → Memoized Expansion} {rule : Rule}
    {pathLength : Nat} {Within : Context → Prop} (inside : Within context)
    (entered : ∀ name ∈ rule.payload.mixins, ∀ payload, Adds Within (enter name payload)) :
    Adds Within (expandRule limit pathLength context enter rule) := by
  intro cache id other expansion held
  have anew := adds_expandAnew entered cache id other
  rw [run_expandRule] at held
  cases looked : (cache.getExpansion? rule.id context).filter
      fun hit => pathLength + hit.depth ≤ limit with
  | some hit =>
      rw [looked] at held
      exact Or.inl held
  | none =>
      rw [looked] at held
      rcases ran : (Expansion.expandRule enter rule).run.run cache with ⟨outcome, after⟩
      simp only [ran] at held anew
      cases outcome with
      | error problem => exact anew expansion held
      | ok found =>
          rcases ResolutionCache.getExpansion?_putExpansion held with ⟨_, here, _⟩ | before
          · rw [here]
            exact Or.inr inside
          · exact anew expansion before

theorem adds_visit {Within : Context → Prop} (inside : Within context)
    (entered : ∀ name, store.Refers context context.name name → ∀ payload,
      Adds Within ((resolver store limit).enter room path context name payload))
    (payload : ResolvedPayload) :
    Adds Within ((resolver store limit).visit room path context payload) := by
  rw [Resolver.visit_eq, Expansion.mergeRules_eq_foldlM]
  apply adds_foldlM
  intro rule matching expansion
  unfold Expansion.expandNext
  split
  · exact adds_pure _
  · apply Adds.map
    apply adds_expandRule inside
    intro name listed payload
    exact entered name ((RuleStore.refers_name_iff name).mpr ⟨rule, matching, listed⟩) payload

theorem adds_enter (store : RuleStore) (limit room : Nat) (path : List String) (context : Context)
    (name : String) (payload : ResolvedPayload) :
    Adds (Reached store context name)
      ((resolver store limit).enter room path context name payload) := by
  induction room generalizing path context name payload with
  | zero =>
      by_cases repeated : name ∈ path
      · rw [Resolver.enter_of_mem repeated]
        exact adds_throw _
      · rw [Resolver.enter_zero repeated]
        exact adds_throw _
  | succ left ih =>
      by_cases repeated : name ∈ path
      · rw [Resolver.enter_of_mem repeated]
        exact adds_throw _
      · rw [Resolver.enter_succ repeated]
        apply adds_visit (reached_self store context name)
        intro next refers payload
        apply (ih (path ++ [name]) (context.forMixin name) next payload).mono
        intro other reached
        exact reached.of_refers refers

/-- A rule whose mixins do not lead back to it is not stored while it is expanded. -/
theorem getExpansion?_expandAnew {rule : Rule} {cache : ResolutionCache} {id : RuleId}
    {bound : Nat} (matching : rule ∈ store.matching context)
    (within : ChainsWithin (store.Refers context) (· ∈ rule.payload.mixins) bound)
    (missing : cache.getExpansion? id context = none) :
    ((Expansion.expandRule ((resolver store limit).enter room path context) rule).run.run
      cache).2.getExpansion? id context = none := by
  have adds : Adds (fun other => ∃ name ∈ rule.payload.mixins, Reached store context name other)
      (Expansion.expandRule ((resolver store limit).enter room path context) rule) := by
    apply adds_expandAnew
    intro name listed payload
    apply (adds_enter store limit room path context name payload).mono
    intro other reached
    exact ⟨name, listed, reached⟩
  by_contra held
  obtain ⟨expansion, found⟩ := Option.ne_none_iff_exists'.mp held
  rcases adds cache id context expansion found with before | ⟨name, listed, further, leads, same⟩
  · rw [missing] at before
    cases before
  · -- The context is that of a name further down, so that name is its own.
    have back : context.name = further := congrArg Context.name same
    have refers : store.Refers context context.name name :=
      (RuleStore.refers_name_iff name).mpr ⟨rule, matching, listed⟩
    rw [← back] at leads
    exact within.acyclic listed (TransGen.tail' leads refers)

end Memoized

end Cascade
