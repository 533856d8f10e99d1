import Cascade.Proofs.Retention
set_option autoImplicit false

/-! How entries leave a cache. A table is emptied by a clear, by a change of generation, and for an
entry that overflows it. Main statement: a full table of contexts overflows by contexts it does not
have; a full table of expansions by any entry, so that it is emptied also when an entry of its own
is stored again. -/

namespace Cascade

namespace ResolutionCache

/-! ### Entries that leave a table -/

section Tables

variable {κ α : Type} [DecidableEq κ]

/-- The operation takes the entry under the key out of a table, where `Overflows` tells the keys
whose entries do not go into the table beside those it has. -/
def Evicts (store : κ → α → Operation) (Overflows : ResolutionCache → κ → Prop)
    (cache : ResolutionCache) (key : κ) (operation : Operation) : Prop :=
  ¬operation.Spares cache.generation ∨
    ∃ other value, operation = store other value ∧ other ≠ key ∧ Overflows cache other

/-- A table that is emptied for entries that overflow it. -/
structure MakesRoom (store : κ → α → Operation) (table : ResolutionCache → OrderedMap κ α)
    (Overflows : ResolutionCache → κ → Prop) : Prop extends IsTable store table where
  emptied : ∀ {cache key}, (table cache).size ≤ cache.capacity → Overflows cache key →
    ∀ value, table (cache.perform (store key value)) = OrderedMap.empty.insert key value
  kept : ∀ {cache key}, (table cache).size ≤ cache.capacity → ¬Overflows cache key →
    ∀ value, table (cache.perform (store key value)) = (table cache).insert key value

variable {store : κ → α → Operation} {table : ResolutionCache → OrderedMap κ α}
  {Overflows : ResolutionCache → κ → Prop} {cache : ResolutionCache} {key other : κ}

theorem MakesRoom.get?_emptied (makesRoom : MakesRoom store table Overflows)
    (bounded : (table cache).size ≤ cache.capacity) (overflows : Overflows cache other)
    (different : other ≠ key) (value : α) :
    (table (cache.perform (store other value))).get? key = none := by
  rw [makesRoom.emptied bounded overflows, OrderedMap.get?_insert, if_neg different,
    OrderedMap.get?_empty]

theorem MakesRoom.get?_kept (makesRoom : MakesRoom store table Overflows)
    (bounded : (table cache).size ≤ cache.capacity) (fits : ¬Overflows cache other)
    (different : other ≠ key) (value : α) :
    (table (cache.perform (store other value))).get? key = (table cache).get? key := by
  rw [makesRoom.kept bounded fits, OrderedMap.get?_insert, if_neg different]

theorem MakesRoom.get?_self (makesRoom : MakesRoom store table Overflows)
    (bounded : (table cache).size ≤ cache.capacity) (value : α) :
    (table (cache.perform (store key value))).get? key = some value := by
  by_cases overflows : Overflows cache key
  · rw [makesRoom.emptied bounded overflows, OrderedMap.get?_insert_self]
  · rw [makesRoom.kept bounded overflows, OrderedMap.get?_insert_self]

theorem MakesRoom.evicted_by_stored_iff (makesRoom : MakesRoom store table Overflows)
    (bounded : (table cache).size ≤ cache.capacity) (held : (table cache).contains key = true)
    (other : κ) (value : α) :
    (table (cache.perform (store other value))).contains key = false ↔
      other ≠ key ∧ Overflows cache other := by
  by_cases same : other = key
  · subst same
    rw [OrderedMap.contains, makesRoom.get?_self bounded]
    exact iff_of_false Bool.noConfusion fun evicted => evicted.1 rfl
  · by_cases overflows : Overflows cache other
    · rw [OrderedMap.contains, makesRoom.get?_emptied bounded overflows same]
      exact iff_of_true rfl ⟨same, overflows⟩
    · rw [OrderedMap.contains, makesRoom.get?_kept bounded overflows same, ← OrderedMap.contains,
        held]
      exact iff_of_false Bool.noConfusion fun evicted => overflows evicted.2

/-- Only operations that store into the table or disturb the cache change the table at all. -/
theorem MakesRoom.evicted_iff (makesRoom : MakesRoom store table Overflows)
    (bounded : (table cache).size ≤ cache.capacity) (held : (table cache).contains key = true)
    (operation : Operation) :
    (table (cache.perform operation)).contains key = false ↔
      Evicts store Overflows cache key operation := by
  by_cases stores : ∃ other value, operation = store other value
  · obtain ⟨other, value, rfl⟩ := stores
    rw [makesRoom.evicted_by_stored_iff bounded held]
    constructor
    · rintro ⟨different, overflows⟩
      exact .inr ⟨other, value, rfl, different, overflows⟩
    · rintro (disturbs | ⟨another, new, same, different, overflows⟩)
      · exact absurd (makesRoom.spares other value cache.generation) disturbs
      · rw [makesRoom.sameKey same]
        exact ⟨different, overflows⟩
  · have step := makesRoom.step cache operation
    generalize table (cache.perform operation) = after at step
    cases step with
    | kept spares storesNone =>
        rw [held]
        refine iff_of_false Bool.noConfusion ?_
        rintro (disturbs | ⟨other, value, same, _⟩)
        · exact disturbs spares
        · exact storesNone other value same
    | emptied disturbs => exact iff_of_true rfl (.inl disturbs)
    | added other value => exact absurd ⟨other, value, rfl⟩ stores
    | addedAlone other value => exact absurd ⟨other, value, rfl⟩ stores

theorem IsTable.bounded_run (isTable : IsTable store table) (capacity : Nat)
    (operations : List Operation) :
    (table (run capacity operations)).size ≤ (run capacity operations).capacity := by
  rw [capacity_run]
  exact isTable.size_run_le capacity operations

/-- An entry that is gone after some further operations was evicted by one of them. -/
theorem MakesRoom.exists_evicts (makesRoom : MakesRoom store table Overflows) {capacity : Nat}
    {front back : List Operation} (held : (table (run capacity front)).contains key = true)
    (gone : (table (run capacity (front ++ back))).contains key = false) :
    ∃ between operation rest, back = between ++ operation :: rest ∧
      Evicts store Overflows (run capacity (front ++ between)) key operation := by
  induction back using List.reverseRecOn with
  | nil =>
      rw [List.append_nil, held] at gone
      cases gone
  | append_singleton back operation ih =>
      rw [← List.append_assoc, run_concat] at gone
      cases heldBefore : (table (run capacity (front ++ back))).contains key with
      | true =>
          have bounded := makesRoom.bounded_run capacity (front ++ back)
          exact ⟨back, operation, [], rfl,
            (makesRoom.evicted_iff bounded heldBefore operation).mp gone⟩
      | false =>
          obtain ⟨between, evicting, rest, split, evicts⟩ := ih heldBefore
          refine ⟨between, evicting, rest ++ [operation], ?_, evicts⟩
          rw [split, List.append_assoc, List.cons_append]

end Tables

/-! ### The two tables -/

/-- The table of contexts is full, and the context is not in it. -/
def ContextOverflows (cache : ResolutionCache) (context : Context) : Prop :=
  cache.contexts.size = cache.capacity ∧ cache.contexts.contains context = false

/-- The table of expansions is full, whatever is in it. -/
def ExpansionOverflows (cache : ResolutionCache) (_ : RuleId × Context) : Prop :=
  cache.expansions.size = cache.capacity

theorem makesRoom_contexts : MakesRoom Operation.put contexts ContextOverflows where
  toIsTable := isTable_contexts
  emptied {cache context} _ overflows payload := by
    obtain ⟨full, absent⟩ := overflows
    simp only [perform, put, full, absent, Nat.le_refl, decide_true, Bool.not_false, Bool.and_true,
      if_true]
    rfl
  kept {cache context} bounded fits payload := by
    have room : (decide (cache.capacity ≤ cache.contexts.size) &&
        !cache.contexts.contains context) = false := by
      rw [Bool.and_eq_false_iff, decide_eq_false_iff_not, Bool.not_eq_false']
      by_cases full : cache.contexts.size = cache.capacity
      · exact .inr (Bool.of_not_eq_false fun absent => fits ⟨full, absent⟩)
      · exact .inl (by omega)
    simp only [perform, put, room]
    rfl

theorem makesRoom_expansions :
    MakesRoom (fun key => Operation.putExpansion key.1 key.2) expansions ExpansionOverflows where
  toIsTable := isTable_expansions
  emptied {cache key} _ overflows expansion := by
    simp only [perform, putExpansion]
    rw [if_pos (Nat.le_of_eq overflows.symm)]
    rfl
  kept {cache key} bounded fits expansion := by
    have room : ¬cache.capacity ≤ cache.expansions.size :=
      fun full => fits (Nat.le_antisymm bounded full)
    simp only [perform, putExpansion]
    rw [if_neg room]

/-! ### All entries of a run -/

/-- After any operations on a new cache, an entry leaves a table by a clear, by a change of
generation, or because an entry under another key overflows the table, and so does every entry that
is found missing later on. A context that is stored again changes no other entry. An expansion that
is stored again changes no other entry as long as its table is not full, and else all others
leave. -/
theorem entries_leave_for_room_only (capacity : Nat) (operations : List Operation) :
    let cache := run capacity operations
    (∀ context, cache.contexts.contains context = true →
      (∀ operation, (cache.perform operation).contexts.contains context = false ↔
        Evicts .put ContextOverflows cache context operation) ∧
      (∀ later, (run capacity (operations ++ later)).contexts.contains context = false →
        ∃ between operation rest, later = between ++ operation :: rest ∧
          Evicts .put ContextOverflows (run capacity (operations ++ between)) context operation) ∧
      ∀ payload other, other ≠ context →
        (cache.put context payload).get? other = cache.get? other) ∧
    ∀ key : RuleId × Context, cache.expansions.contains key = true →
      (∀ operation, (cache.perform operation).expansions.contains key = false ↔
        Evicts (fun key => .putExpansion key.1 key.2) ExpansionOverflows cache key operation) ∧
      (∀ later, (run capacity (operations ++ later)).expansions.contains key = false →
        ∃ between operation rest, later = between ++ operation :: rest ∧
          Evicts (fun key => .putExpansion key.1 key.2) ExpansionOverflows
            (run capacity (operations ++ between)) key operation) ∧
      ∀ expansion rule context, (rule, context) ≠ key →
        (cache.putExpansion key.1 key.2 expansion).getExpansion? rule context =
          if cache.expansions.size = max capacity 1 then none
          else cache.getExpansion? rule context := by
  intro cache
  have boundedContexts := isTable_contexts.bounded_run capacity operations
  have boundedExpansions := isTable_expansions.bounded_run capacity operations
  refine ⟨fun context held => ⟨?_, ?_, ?_⟩, fun key held => ⟨?_, ?_, ?_⟩⟩
  · exact makesRoom_contexts.evicted_iff boundedContexts held
  · exact fun later gone => makesRoom_contexts.exists_evicts held gone
  · intro payload other different
    have fits : ¬ContextOverflows cache context := by
      rintro ⟨_, absent⟩
      rw [held] at absent
      cases absent
    exact makesRoom_contexts.get?_kept boundedContexts fits different.symm payload
  · exact makesRoom_expansions.evicted_iff boundedExpansions held
  · exact fun later gone => makesRoom_expansions.exists_evicts held gone
  · intro expansion rule context different
    have sameCapacity : cache.capacity = max capacity 1 := capacity_run capacity operations
    rw [← sameCapacity]
    split
    · next full =>
        have overflows : ExpansionOverflows cache key := full
        exact makesRoom_expansions.get?_emptied boundedExpansions overflows different.symm expansion
    · next room =>
        have fits : ¬ExpansionOverflows cache key := room
        exact makesRoom_expansions.get?_kept boundedExpansions fits different.symm expansion

end ResolutionCache

/-! A cache for two entries has the expansions of two rules, and one of them is stored again. -/

namespace Sample

def card : Context := .ofRoot (.ofName "Card")

def sized : Expansion := ⟨⟨none, some ⟨[("size", .int 12)]⟩⟩, 1⟩

def weighted : Expansion := ⟨⟨none, some ⟨[("weight", .int 700)]⟩⟩, 1⟩

def fullOfExpansions : ResolutionCache :=
  .run 2 [.putExpansion ⟨3⟩ card sized, .putExpansion ⟨5⟩ card weighted]

end Sample

namespace ResolutionCache

open Sample (card sized weighted fullOfExpansions)

/-- The other expansion is evicted, although the table already has the key. -/
theorem weighted_evicted_by_sized_again :
    fullOfExpansions.getExpansion? ⟨3⟩ card = some sized ∧
      fullOfExpansions.getExpansion? ⟨5⟩ card = some weighted ∧
      (fullOfExpansions.putExpansion ⟨3⟩ card sized).getExpansion? ⟨5⟩ card = none :=
  ⟨rfl, rfl, rfl⟩

end ResolutionCache

end Cascade
