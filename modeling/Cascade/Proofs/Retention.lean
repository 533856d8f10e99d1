import Cascade.OrderedMap.Lemmas
import Cascade.Resolution.Cache
import Mathlib.Data.List.Induction
set_option autoImplicit false

/-! What a cache has after any operations. An operation does one of four things to a table: it
leaves the table alone, empties it, adds an entry to it, or adds an entry after emptying it. Main
statement: an entry that is found is the one stored last under its key, with neither a clear nor a
change of generation since then, and no table outgrows the capacity. -/

namespace Cascade

namespace ResolutionCache

/-! ### Runs of operations -/

inductive Operation where
  | sync (generation : Nat)
  | put (context : Context) (payload : IssuedPayload)
  | putExpansion (rule : RuleId) (context : Context) (expansion : Expansion)
  | get (context : Context)
  | getExpansion (rule : RuleId) (context : Context)
  | clear

def perform (cache : ResolutionCache) : Operation → ResolutionCache
  | .sync generation => cache.sync generation
  | .put context payload => cache.put context payload
  | .putExpansion rule context expansion => cache.putExpansion rule context expansion
  | .get _ => cache
  | .getExpansion _ _ => cache
  | .clear => cache.clear

/-- A new cache after the operations. -/
def run (capacity : Nat) (operations : List Operation) : ResolutionCache :=
  operations.foldl perform (ofCapacity capacity)

theorem run_concat (capacity : Nat) (operations : List Operation) (operation : Operation) :
    run capacity (operations ++ [operation]) = (run capacity operations).perform operation := by
  rw [run, List.foldl_append]
  rfl

theorem capacity_perform (cache : ResolutionCache) (operation : Operation) :
    (cache.perform operation).capacity = cache.capacity := by
  cases operation with
  | sync next =>
      rw [perform, sync]
      split <;> rfl
  | put context payload => rfl
  | putExpansion rule context expansion => rfl
  | get context => rfl
  | getExpansion rule context => rfl
  | clear => rfl

theorem capacity_run (capacity : Nat) (operations : List Operation) :
    (run capacity operations).capacity = max capacity 1 := by
  induction operations using List.reverseRecOn with
  | nil => rfl
  | append_singleton operations operation ih => rw [run_concat, capacity_perform, ih]

/-! ### Generations -/

def Operation.synced? : Operation → Option Nat
  | .sync generation => some generation
  | _ => none

/-- The generation of the last sync, and 0 before the first one. -/
def lastSynced (operations : List Operation) : Nat :=
  (operations.filterMap Operation.synced?).getLast?.getD 0

theorem lastSynced_concat (operations : List Operation) (operation : Operation) :
    lastSynced (operations ++ [operation]) = operation.synced?.getD (lastSynced operations) := by
  rw [lastSynced, List.filterMap_append]
  cases synced : operation.synced? with
  | none => rw [List.filterMap_cons_none synced, List.filterMap_nil, List.append_nil]; rfl
  | some generation =>
      rw [List.filterMap_cons_some synced, List.filterMap_nil, List.getLast?_concat]
      rfl

theorem generation_perform (cache : ResolutionCache) (operation : Operation) :
    (cache.perform operation).generation = operation.synced?.getD cache.generation := by
  cases operation with
  | sync next =>
      rw [perform, sync]
      split
      · next same => exact same
      · rfl
  | put context payload => rfl
  | putExpansion rule context expansion => rfl
  | get context => rfl
  | getExpansion rule context => rfl
  | clear => rfl

theorem generation_run (capacity : Nat) (operations : List Operation) :
    (run capacity operations).generation = lastSynced operations := by
  induction operations using List.reverseRecOn with
  | nil => rfl
  | append_singleton operations operation ih =>
      rw [run_concat, generation_perform, ih, lastSynced_concat]

/-- The operation neither clears a cache of the generation nor takes it to another one. -/
def Operation.Spares (generation : Nat) : Operation → Prop
  | .sync next => next = generation
  | .clear => False
  | _ => True

theorem Operation.Spares.synced?_getD {generation : Nat} {operation : Operation}
    (spares : operation.Spares generation) : operation.synced?.getD generation = generation := by
  cases operation with
  | sync next => exact spares
  | put context payload => rfl
  | putExpansion rule context expansion => rfl
  | get context => rfl
  | getExpansion rule context => rfl
  | clear => rfl

theorem lastSynced_append_of_spared (front : List Operation) {back : List Operation}
    (spared : ∀ later ∈ back, later.Spares (lastSynced front)) :
    lastSynced (front ++ back) = lastSynced front := by
  induction back using List.reverseRecOn with
  | nil => rw [List.append_nil]
  | append_singleton back operation ih =>
      have before : lastSynced (front ++ back) = lastSynced front :=
        ih fun later inBack => spared later (List.mem_append_left _ inBack)
      have last : operation.Spares (lastSynced front) :=
        spared operation (List.mem_append_right _ (List.mem_singleton_self operation))
      rw [← List.append_assoc, lastSynced_concat, before, last.synced?_getD]

/-! ### One operation, seen by one table -/

section Tables

variable {κ α : Type} [DecidableEq κ]

/-- What an operation makes of a table of a cache of the generation, where `store` puts entries
into the table. -/
inductive TableStep (store : κ → α → Operation) (capacity generation : Nat)
    (before : OrderedMap κ α) : Operation → OrderedMap κ α → Prop where
  | kept {operation : Operation} (spares : operation.Spares generation)
      (storesNone : ∀ key value, operation ≠ store key value) :
      TableStep store capacity generation before operation before
  | emptied {operation : Operation} (disturbs : ¬operation.Spares generation) :
      TableStep store capacity generation before operation ∅
  | added (key : κ) (value : α)
      (room : before.contains key = true ∨ before.size < capacity) :
      TableStep store capacity generation before (store key value) (before.insert key value)
  | addedAlone (key : κ) (value : α) (full : capacity ≤ before.size) :
      TableStep store capacity generation before (store key value)
        (OrderedMap.empty.insert key value)

/-- The table of a cache that `store` puts entries into. -/
structure IsTable (store : κ → α → Operation) (table : ResolutionCache → OrderedMap κ α) :
    Prop where
  sameKey : ∀ {key other value new}, store key value = store other new → key = other
  spares : ∀ key value generation, (store key value).Spares generation
  fresh : ∀ capacity, table (ofCapacity capacity) = ∅
  step : ∀ cache operation,
    TableStep store cache.capacity cache.generation (table cache) operation
      (table (cache.perform operation))

variable {store : κ → α → Operation} {table : ResolutionCache → OrderedMap κ α}
  {capacity generation : Nat} {before after : OrderedMap κ α} {operation : Operation}

theorem TableStep.size_le (step : TableStep store capacity generation before operation after)
    (positive : 0 < capacity) (bounded : before.size ≤ capacity) : after.size ≤ capacity := by
  cases step with
  | kept spares storesNone => exact bounded
  | emptied disturbs => exact Nat.zero_le capacity
  | added key value room =>
      rw [OrderedMap.size_insert]
      split
      · exact bounded
      · next absent => exact room.resolve_left absent
  | addedAlone key value full => exact positive

/-- What is found afterwards was stored by the operation, or it was there and the operation
neither stores in its place nor disturbs it. -/
theorem TableStep.found (step : TableStep store capacity generation before operation after)
    (isTable : IsTable store table) {key : κ} {value : α} (held : after.get? key = some value) :
    operation = store key value ∨
      (before.get? key = some value ∧ (∀ other, operation ≠ store key other) ∧
        operation.Spares generation) := by
  cases step with
  | kept spares storesNone => exact Or.inr ⟨held, storesNone key, spares⟩
  | emptied disturbs => cases held
  | added added new room =>
      rcases OrderedMap.get?_insert_eq_some_iff.mp held with ⟨rfl, rfl⟩ | ⟨different, old⟩
      · exact Or.inl rfl
      · exact Or.inr ⟨old, fun other same => different (isTable.sameKey same),
          isTable.spares added new generation⟩
  | addedAlone added new full =>
      rcases OrderedMap.get?_insert_eq_some_iff.mp held with ⟨rfl, rfl⟩ | ⟨_, old⟩
      · exact Or.inl rfl
      · cases old

/-! ### All operations of a run, seen by one table -/

theorem IsTable.size_run_le (isTable : IsTable store table) (capacity : Nat)
    (operations : List Operation) :
    (table (run capacity operations)).size ≤ max capacity 1 := by
  induction operations using List.reverseRecOn with
  | nil =>
      rw [run, List.foldl_nil, isTable.fresh]
      exact Nat.zero_le _
  | append_singleton operations operation ih =>
      have step := isTable.step (run capacity operations) operation
      rw [capacity_run] at step
      rw [run_concat]
      exact step.size_le (Nat.le_max_right capacity 1) ih

/-- Between `front` and `back`, the value was stored under the key. Since then nothing else was
stored under it, and the cache was neither cleared nor taken to another generation. -/
structure StoredLast (store : κ → α → Operation) (operations : List Operation) (key : κ)
    (value : α) (front back : List Operation) : Prop where
  stored : operations = front ++ store key value :: back
  latest : ∀ other, store key other ∉ back
  spared : ∀ later ∈ back, later.Spares (lastSynced front)

theorem StoredLast.lastSynced_eq {key : κ} {value : α} {operations front back : List Operation}
    (storedLast : StoredLast store operations key value front back)
    (isTable : IsTable store table) : lastSynced operations = lastSynced front := by
  rw [storedLast.stored]
  apply lastSynced_append_of_spared
  intro later listed
  rcases List.mem_cons.mp listed with rfl | inBack
  · exact isTable.spares key value (lastSynced front)
  · exact storedLast.spared later inBack

theorem StoredLast.concat {key : κ} {value : α} {operations front back : List Operation}
    (storedLast : StoredLast store operations key value front back)
    (isTable : IsTable store table) {operation : Operation}
    (storesNone : ∀ other, operation ≠ store key other)
    (spares : operation.Spares (lastSynced operations)) :
    StoredLast store (operations ++ [operation]) key value front (back ++ [operation]) where
  stored := by rw [storedLast.stored, List.append_assoc, List.cons_append]
  latest other listed := by
    rcases List.mem_append.mp listed with inBack | last
    · exact storedLast.latest other inBack
    · exact storesNone other (List.mem_singleton.mp last).symm
  spared later listed := by
    rcases List.mem_append.mp listed with inBack | last
    · exact storedLast.spared later inBack
    · rw [List.mem_singleton.mp last, ← storedLast.lastSynced_eq isTable]
      exact spares

theorem IsTable.storedLast_of_found (isTable : IsTable store table) {key : κ} {value : α}
    {operations : List Operation}
    (held : (table (run capacity operations)).get? key = some value) :
    ∃ front back, StoredLast store operations key value front back := by
  induction operations using List.reverseRecOn with
  | nil =>
      rw [run, List.foldl_nil, isTable.fresh] at held
      cases held
  | append_singleton operations operation ih =>
      have step := isTable.step (run capacity operations) operation
      rw [run_concat] at held
      rcases step.found isTable held with rfl | ⟨before, storesNone, spares⟩
      · exact ⟨operations, [], rfl, fun _ => List.not_mem_nil, fun _ => nofun⟩
      · obtain ⟨front, back, storedLast⟩ := ih before
        rw [generation_run] at spares
        exact ⟨front, back ++ [operation], storedLast.concat isTable storesNone spares⟩

/-! ### The two tables -/

theorem tableStep_sync (cache : ResolutionCache) (generation : Nat)
    (emptied : table { cache.clear with generation } = ∅)
    (storesNone : ∀ key value, Operation.sync generation ≠ store key value) :
    TableStep store cache.capacity cache.generation (table cache) (.sync generation)
      (table (cache.sync generation)) := by
  by_cases same : cache.generation = generation
  · rw [sync, if_pos same]
    exact .kept same.symm storesNone
  · rw [sync, if_neg same, emptied]
    exact .emptied (Ne.symm same)

end Tables

theorem isTable_contexts : IsTable Operation.put contexts where
  sameKey same := by injection same
  spares _ _ _ := trivial
  fresh _ := rfl
  step cache operation := by
    cases operation with
    | sync generation => exact tableStep_sync cache generation rfl fun _ _ => Operation.noConfusion
    | put context payload =>
        simp only [perform, put]
        split
        · next full =>
            rw [Bool.and_eq_true, decide_eq_true_eq] at full
            exact .addedAlone context payload full.1
        · next room =>
            rw [Bool.and_eq_true, decide_eq_true_eq, Bool.not_eq_true', not_and_or, Nat.not_le,
              Bool.not_eq_false] at room
            exact .added context payload room.symm
    | putExpansion rule context expansion => exact .kept trivial fun _ _ => Operation.noConfusion
    | get context => exact .kept trivial fun _ _ => Operation.noConfusion
    | getExpansion rule context => exact .kept trivial fun _ _ => Operation.noConfusion
    | clear => exact .emptied id

theorem isTable_expansions :
    IsTable (fun key => Operation.putExpansion key.1 key.2) expansions where
  sameKey same := by
    injection same with sameRule sameContext
    exact Prod.ext sameRule sameContext
  spares _ _ _ := trivial
  fresh _ := rfl
  step cache operation := by
    cases operation with
    | sync generation => exact tableStep_sync cache generation rfl fun _ _ => Operation.noConfusion
    | put context payload => exact .kept trivial fun _ _ => Operation.noConfusion
    | putExpansion rule context expansion =>
        simp only [perform, putExpansion]
        split
        · next full => exact .addedAlone (rule, context) expansion full
        · next room => exact .added (rule, context) expansion (Or.inr (Nat.lt_of_not_le room))
    | get context => exact .kept trivial fun _ _ => Operation.noConfusion
    | getExpansion rule context => exact .kept trivial fun _ _ => Operation.noConfusion
    | clear => exact .emptied id

/-! ### All lookups after a run -/

/-- After any operations on a new cache, both tables are within the capacity, and what a lookup
finds is what was stored last under its key, in the generation that the cache is still in. Whatever
is stored is found right afterwards, and the other table is left as it is. -/
theorem lookups_are_current (capacity : Nat) (operations : List Operation) :
    let cache := run capacity operations
    cache.contexts.size ≤ max 1 capacity ∧ cache.expansions.size ≤ max 1 capacity ∧
      cache.generation = lastSynced operations ∧
      (∀ context payload, cache.get? context = some payload →
        ∃ front back, StoredLast .put operations context payload front back) ∧
      (∀ rule context expansion, cache.getExpansion? rule context = some expansion →
        ∃ front back, StoredLast (fun key => .putExpansion key.1 key.2) operations (rule, context)
          expansion front back) ∧
      (∀ context payload, (cache.put context payload).get? context = some payload ∧
        (cache.put context payload).expansions = cache.expansions) ∧
      ∀ rule context expansion,
        (cache.putExpansion rule context expansion).getExpansion? rule context =
            some expansion ∧
          (cache.putExpansion rule context expansion).contexts = cache.contexts := by
  intro cache
  rw [Nat.max_comm]
  refine ⟨isTable_contexts.size_run_le capacity operations,
    isTable_expansions.size_run_le capacity operations, generation_run capacity operations,
    ?_, ?_, ?_, ?_⟩
  · intro context payload found
    exact isTable_contexts.storedLast_of_found found
  · intro rule context expansion found
    exact isTable_expansions.storedLast_of_found found
  · intro context payload
    exact ⟨OrderedMap.get?_insert_self _ context payload, rfl⟩
  · intro rule context expansion
    exact ⟨OrderedMap.get?_insert_self _ (rule, context) expansion, rfl⟩

/-- Going back to an earlier generation brings nothing back. -/
example (context : Context) (payload : IssuedPayload) :
    (run 0 [.sync 1, .put context payload, .sync 2, .sync 1]).get? context = none := rfl

end ResolutionCache

end Cascade
