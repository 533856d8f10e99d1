import Cascade.Proofs.Memory
set_option autoImplicit false

/-! How an expansion fails. An error is that of one mixin that cannot be entered, and passes through
all levels as it is. Where the chains of mixins are bounded, no name repeats on the way, so that
depth is the only thing to fail for. -/

namespace Cascade

open Relation (TransGen)

namespace Expansion

/-! ### Folds that fail -/

theorem bind_eq_error {α β : Type} (first : Except StyleError α)
    (next : α → Except StyleError β) (problem : StyleError) :
    (first >>= next) = .error problem ↔
      first = .error problem ∨ ∃ value, first = .ok value ∧ next value = .error problem := by
  cases first with
  | error earlier => simp [bind, Except.bind]
  | ok value => simp [bind, Except.bind]

theorem map_eq_error {α β : Type} (first : Except StyleError α) (change : α → β)
    (problem : StyleError) : (change <$> first) = .error problem ↔ first = .error problem := by
  cases first with
  | error earlier => simp [Functor.map, Except.map]
  | ok value => simp [Functor.map, Except.map]

theorem foldlM_error {ι : Type} {step : Expansion → ι → Except StyleError Expansion}
    {items : List ι} {expansion : Expansion} {problem : StyleError}
    (failed : items.foldlM step expansion = .error problem) :
    ∃ item ∈ items, ∃ before, step before item = .error problem := by
  induction items generalizing expansion with
  | nil => cases failed
  | cons item rest ih =>
      rw [List.foldlM_cons, bind_eq_error] at failed
      rcases failed with here | ⟨after, _, later⟩
      · exact ⟨item, List.mem_cons_self, expansion, here⟩
      · obtain ⟨other, inside, before, there⟩ := ih later
        exact ⟨other, List.mem_cons_of_mem item inside, before, there⟩

variable {enter : String → ResolvedPayload → Except StyleError Expansion} {problem : StyleError}

theorem expandRule_error {rule : Rule} (failed : expandRule enter rule = .error problem) :
    ∃ name ∈ rule.payload.mixins, ∃ payload, enter name payload = .error problem := by
  rw [expandRule, mergeMixins_eq_foldlM] at failed
  obtain ⟨name, listed, before, refused⟩ := foldlM_error failed
  exact ⟨name, listed, before.payload, (map_eq_error _ _ _).mp refused⟩

theorem mergeRules_error {rules : List Rule} {expansion : Expansion}
    (failed : mergeRules (expandRule enter) expansion rules = .error problem) :
    ∃ rule ∈ rules, expandRule enter rule = .error problem := by
  rw [mergeRules_eq_foldlM] at failed
  obtain ⟨rule, inside, before, refused⟩ := foldlM_error failed
  rw [expandNext_expandRule, map_eq_error] at refused
  exact ⟨rule, inside, refused⟩

end Expansion

namespace Resolution

variable {store : RuleStore} {limit room bound : Nat} {path : List String} {context : Context}
  {rule : Rule} {problem : StyleError}

theorem enter_eq_error_iff (name : String) (payload : ResolvedPayload) :
    enter store limit room path context name payload = .error problem ↔
      name ∈ path ∧ problem = .cyclicMixin (path ++ [name]) ∨
      name ∉ path ∧ (room = 0 ∧ problem = .mixinDepthExceeded name limit ∨ ∃ left, room = left + 1 ∧
        visit store limit left (path ++ [name]) (context.forMixin name) payload =
          .error problem) := by
  by_cases repeated : name ∈ path
  · simp [enter_of_mem repeated, repeated, eq_comm]
  · cases room with
    | zero => simp [enter_zero repeated, repeated, eq_comm]
    | succ left => simp [enter_succ repeated, repeated]

/-- With bounded chains below a rule, its expansion can only fail for depth. -/
theorem exceeded_of_expandRule (leads : LeadsTo store path context)
    (matching : rule ∈ store.matching context)
    (within : ChainsWithin (store.Refers context) (· ∈ rule.payload.mixins) bound)
    (failed : Expansion.expandRule (enter store limit room path context) rule = .error problem) :
    ∃ name, problem = .mixinDepthExceeded name limit := by
  induction bound generalizing room path context rule with
  | zero =>
      obtain ⟨name, listed, _⟩ := Expansion.expandRule_error failed
      obtain ⟨left, impossible, _⟩ := chainsWithin_iff.mp within name listed
      cases impossible
  | succ below ih =>
      obtain ⟨name, listed, payload, refused⟩ := Expansion.expandRule_error failed
      have refers : store.Refers context context.name name :=
        (RuleStore.refers_name_iff name).mpr ⟨rule, matching, listed⟩
      rcases (enter_eq_error_iff name payload).mp refused with
        ⟨repeated, _⟩ | ⟨_, ⟨_, exceeded⟩ | ⟨left, _, visitFailed⟩⟩
      · exact absurd (TransGen.tail' (leads name repeated) refers) (within.acyclic listed)
      · exact ⟨name, exceeded⟩
      · rw [visit_eq] at visitFailed
        obtain ⟨next, nextMatching, nextFailed⟩ := Expansion.mergeRules_error visitFailed
        have belowName := chainsWithin_succ_iff.mp within name listed
        refine ih (leads.forMixin refers) nextMatching (belowName.of_starts ?_) nextFailed
        intro other otherListed
        exact (RuleStore.refers_name_iff other).mpr ⟨next, nextMatching, otherListed⟩

end Resolution

/-- Where the longest chain below a rule does not fit, the rule cannot be expanded, for depth. -/
theorem Expansion.IsOf.expandRule_exceeds {store : RuleStore} {limit room : Nat}
    {path : List String} {context : Context} {rule : Rule} {expansion : Expansion}
    (isOf : expansion.IsOf store context rule) (leads : Resolution.LeadsTo store path context)
    (matching : rule ∈ store.matching context) (deeper : room < expansion.depth) :
    ∃ name, expandRule (Resolution.enter store limit room path context) rule =
      .error (.mixinDepthExceeded name limit) := by
  cases outcome : expandRule (Resolution.enter store limit room path context) rule with
  | ok found =>
      have fits := (Resolution.longestChain_of_expandRule
        (Resolution.measures_enter store limit room path context) outcome).2
      rw [(of_expandRule outcome).unique isOf] at fits
      omega
  | error problem =>
      obtain ⟨name, exceeded⟩ :=
        Resolution.exceeded_of_expandRule leads matching isOf.depth.within outcome
      exact ⟨name, by rw [exceeded]⟩

end Cascade
