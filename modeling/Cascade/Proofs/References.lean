import Cascade.Resolution.Basic
import Mathlib.Data.List.Chain
set_option autoImplicit false

/-! References from names to mixins, as one context sees them, and the chains they form. Where the
lengths of all chains are bounded, no name that they reach leads back to itself. -/

namespace Cascade

open Relation (ReflTransGen TransGen)

namespace Context

theorem name_forMixin (context : Context) (name : String) : (context.forMixin name).name = name :=
  rfl

theorem forMixin_name (context : Context) : context.forMixin context.name = context := rfl

end Context

namespace RuleStore

/-- Some rule for the name matches the context with that name, and lists the mixin. -/
def Refers (store : RuleStore) (context : Context) (name mixin : String) : Prop :=
  ∃ rule ∈ store.rulesAnchoredAt name,
    rule.matches (context.forMixin name) = true ∧ mixin ∈ rule.payload.mixins

variable {store : RuleStore} {context : Context}

theorem refers_forMixin (name : String) :
    store.Refers (context.forMixin name) = store.Refers context := rfl

theorem refers_name_iff (mixin : String) :
    store.Refers context context.name mixin ↔
      ∃ rule ∈ store.matching context, mixin ∈ rule.payload.mixins := by
  unfold Refers matching
  rw [Context.forMixin_name]
  simp only [List.mem_filter, and_assoc]

end RuleStore

/-! ### Chains -/

/-- Names each of which refers to the next one. The first must be one of the given starts. -/
structure Chain (refers : String → String → Prop) (starts : String → Prop)
    (names : List String) : Prop where
  head : ∀ first ∈ names.head?, starts first
  links : names.IsChain refers

def ChainsWithin (refers : String → String → Prop) (starts : String → Prop)
    (bound : Nat) : Prop :=
  ∀ names, Chain refers starts names → names.length ≤ bound

structure LongestChain (refers : String → String → Prop) (starts : String → Prop)
    (length : Nat) : Prop where
  within : ChainsWithin refers starts length
  attained : ∃ names, Chain refers starts names ∧ names.length = length

variable {refers : String → String → Prop} {starts : String → Prop} {bound : Nat}

theorem chain_nil : Chain refers starts [] where
  head := by
    intro first impossible
    cases impossible
  links := .nil

theorem chain_cons_iff (first : String) (rest : List String) :
    Chain refers starts (first :: rest) ↔
      starts first ∧ Chain refers (refers first) rest := by
  constructor
  · intro chain
    obtain ⟨next, links⟩ := List.isChain_cons.mp chain.links
    exact ⟨chain.head first rfl, next, links⟩
  · rintro ⟨isStart, next, links⟩
    refine ⟨fun other isFirst => ?_, List.isChain_cons.mpr ⟨next, links⟩⟩
    cases isFirst
    exact isStart

theorem chain_refers_iff (name : String) (names : List String) :
    Chain refers (refers name) names ↔
      (name :: names).IsChain refers := by
  rw [List.isChain_cons]
  exact ⟨fun chain => ⟨chain.head, chain.links⟩, fun both => ⟨both.1, both.2⟩⟩

theorem chainsWithin_iff :
    ChainsWithin refers starts bound ↔
      ∀ first, starts first →
        ∃ left, bound = left + 1 ∧ ChainsWithin refers (refers first) left := by
  constructor
  · intro within first isStart
    have single := within [first] ((chain_cons_iff first []).mpr ⟨isStart, chain_nil⟩)
    obtain ⟨left, same⟩ := Nat.exists_eq_add_of_le' single
    refine ⟨left, same, fun names chain => ?_⟩
    have longer := within (first :: names) ((chain_cons_iff first names).mpr ⟨isStart, chain⟩)
    rw [same] at longer
    exact Nat.le_of_succ_le_succ longer
  · intro parts names chain
    cases names with
    | nil => exact Nat.zero_le bound
    | cons first rest =>
        obtain ⟨isStart, continued⟩ := (chain_cons_iff first rest).mp chain
        obtain ⟨left, same, within⟩ := parts first isStart
        rw [same]
        exact Nat.succ_le_succ (within rest continued)

theorem chainsWithin_succ_iff :
    ChainsWithin refers starts (bound + 1) ↔
      ∀ first, starts first → ChainsWithin refers (refers first) bound := by
  rw [chainsWithin_iff]
  constructor
  · intro parts first isStart
    obtain ⟨left, same, within⟩ := parts first isStart
    cases same
    exact within
  · intro parts first isStart
    exact ⟨bound, rfl, parts first isStart⟩

theorem ChainsWithin.mono {higher : Nat} (within : ChainsWithin refers starts bound)
    (above : bound ≤ higher) : ChainsWithin refers starts higher :=
  fun names chain => Nat.le_trans (within names chain) above

theorem ChainsWithin.of_starts {fewer : String → Prop}
    (within : ChainsWithin refers starts bound) (among : ∀ first, fewer first → starts first) :
    ChainsWithin refers fewer bound :=
  fun names chain => within names ⟨fun first isFirst => among first (chain.head first isFirst),
    chain.links⟩

theorem LongestChain.unique {length other : Nat} (first : LongestChain refers starts length)
    (second : LongestChain refers starts other) : length = other := by
  obtain ⟨names, chain, same⟩ := first.attained
  obtain ⟨others, otherChain, otherSame⟩ := second.attained
  have below := second.within names chain
  have above := first.within others otherChain
  omega

theorem longestChain_of_parts {length : Nat}
    (parts : ∀ first, starts first → ∃ below,
      LongestChain refers (refers first) below ∧ below + 1 ≤ length)
    (attained : length = 0 ∨ ∃ first, starts first ∧ ∃ below,
      LongestChain refers (refers first) below ∧ length = below + 1) :
    LongestChain refers starts length := by
  constructor
  · intro names chain
    cases names with
    | nil => exact Nat.zero_le length
    | cons first rest =>
        obtain ⟨isStart, continued⟩ := (chain_cons_iff first rest).mp chain
        obtain ⟨below, longest, bounded⟩ := parts first isStart
        have short := longest.within rest continued
        rw [List.length_cons]
        omega
  · rcases attained with none | ⟨first, isStart, below, longest, same⟩
    · exact ⟨[], chain_nil, none.symm⟩
    · obtain ⟨rest, continued, long⟩ := longest.attained
      refine ⟨first :: rest, (chain_cons_iff first rest).mpr ⟨isStart, continued⟩, ?_⟩
      rw [List.length_cons, long, same]

/-! ### Cycles -/

theorem ChainsWithin.descend {name later : String} (leads : TransGen refers name later)
    (within : ChainsWithin refers (refers name) bound) :
    ∃ less < bound, ChainsWithin refers (refers later) less := by
  induction leads with
  | single direct =>
      obtain ⟨left, same, below⟩ := chainsWithin_iff.mp within _ direct
      exact ⟨left, by omega, below⟩
  | tail _ direct ih =>
      obtain ⟨between, lower, reached⟩ := ih
      obtain ⟨left, same, below⟩ := chainsWithin_iff.mp reached _ direct
      exact ⟨left, by omega, below⟩

theorem ChainsWithin.not_transGen_self {name : String}
    (within : ChainsWithin refers (refers name) bound) :
    ¬TransGen refers name name := by
  induction bound using Nat.strongRecOn with
  | ind bound ih =>
      intro cycle
      obtain ⟨less, lower, again⟩ := within.descend cycle
      exact ih less lower again cycle

theorem ChainsWithin.acyclic_of_refers {name later : String}
    (within : ChainsWithin refers (refers name) bound) (leads : ReflTransGen refers name later) :
    ¬TransGen refers later later := by
  rcases Relation.reflTransGen_iff_eq_or_transGen.mp leads with same | further
  · rw [same]
    exact within.not_transGen_self
  · obtain ⟨less, _, reached⟩ := within.descend further
    exact reached.not_transGen_self

theorem ChainsWithin.acyclic (within : ChainsWithin refers starts bound) {first : String}
    (isStart : starts first) : ¬TransGen refers first first := by
  obtain ⟨left, _, below⟩ := chainsWithin_iff.mp within first isStart
  exact below.not_transGen_self

theorem reaches_of_isChain {name later : String} {names : List String}
    (links : (name :: names).IsChain refers) (inside : later ∈ name :: names) :
    ReflTransGen refers name later := by
  have further : (name :: names).Pairwise (TransGen refers) :=
    (links.imp fun _ _ direct => TransGen.single direct).pairwise
  rcases List.mem_cons.mp inside with same | behind
  · rw [same]
  · exact ((List.pairwise_cons.mp further).1 later behind).to_reflTransGen

theorem exists_refers_of_isChain {name later : String} {names : List String}
    (links : (name :: names).IsChain refers) (inside : later ∈ names) :
    ∃ earlier, refers earlier later := by
  induction names generalizing name with
  | nil => cases inside
  | cons first rest ih =>
      rw [List.isChain_cons_cons] at links
      rcases List.mem_cons.mp inside with same | behind
      · exact ⟨name, same ▸ links.1⟩
      · exact ih links.2 behind

/-- A chain that repeats a name goes round in a circle. -/
theorem nodup_of_acyclic {names : List String} (links : names.IsChain refers)
    (acyclic : ∀ name ∈ names, ¬TransGen refers name name) : names.Nodup := by
  have leads : names.Pairwise (TransGen refers) :=
    (links.imp fun _ _ direct => TransGen.single direct).pairwise
  refine leads.imp_of_mem ?_
  intro earlier later inside _ reaches same
  rw [← same] at reaches
  exact acyclic earlier inside reaches

end Cascade
