import Cascade.OrderedMap.Lemmas
import Cascade.Proofs.Buckets
set_option autoImplicit false

/-! Rule stores against a reference that sees all insertions at once. A store replaces or appends,
and sorts after each insertion; the reference takes the rules that the slots are left with, and
sorts them once. Main statements: an insertion keeps the two in step, so any number of them does. -/

namespace Cascade

/-! ### Runs of insertions -/

structure Insertion where
  selector : Selector
  payload : RulePayload
  rank : Rank

namespace Insertion

def slot (insertion : Insertion) : Slot := ⟨insertion.selector, insertion.rank⟩

def toRule (insertion : Insertion) (number : Nat) : Rule :=
  ⟨⟨number⟩, insertion.selector, insertion.rank, insertion.payload⟩

/-- The rules of insertions, with the ids 0, 1, 2 and so on. -/
def numbered (insertions : List Insertion) : List Rule :=
  insertions.zipIdx.map fun (insertion, number) => insertion.toRule number

theorem numbered_append_singleton (insertions : List Insertion) (next : Insertion) :
    numbered (insertions ++ [next]) = numbered insertions ++ [next.toRule insertions.length] := by
  simp [numbered, List.zipIdx_append]

theorem length_numbered (insertions : List Insertion) :
    (numbered insertions).length = insertions.length := by
  rw [numbered, List.length_map, List.length_zipIdx]

theorem ids_numbered (insertions : List Insertion) :
    (numbered insertions).map Rule.id = (List.range insertions.length).map RuleId.mk := by
  induction insertions using List.reverseRecOn with
  | nil => rfl
  | append_singleton front next ih =>
      rw [numbered_append_singleton, List.map_append, ih, List.length_append, List.length_singleton,
        List.range_succ, List.map_append]
      rfl

end Insertion

namespace RuleStore

def add (store : RuleStore) (insertion : Insertion) : InsertOutcome × RuleStore :=
  store.insert insertion.selector insertion.payload insertion.rank

def ofInsertions (insertions : List Insertion) : RuleStore :=
  insertions.foldl (fun store insertion => (store.add insertion).2) ∅

theorem ofInsertions_append_singleton (insertions : List Insertion) (next : Insertion) :
    ofInsertions (insertions ++ [next]) = ((ofInsertions insertions).add next).2 := by
  rw [ofInsertions, List.foldl_append]
  rfl

/-- The bucket of a name, read off the rules in the order of their insertion. -/
def bucketOf (rules : List Rule) (name : String) : List Rule :=
  Bucket.sort (Slots.live (Slots.anchoredAt name rules))

theorem bucketOf_own (rules : List Rule) (rule : Rule) : bucketOf (rules ++ [rule]) rule.key =
    Bucket.sort (Slots.live (Slots.anchoredAt rule.key rules ++ [rule])) := by
  rw [bucketOf, Slots.anchoredAt_append_singleton, if_pos rfl]

theorem mem_bucketOf {rules : List Rule} {rule : Rule} {name : String} :
    rule ∈ bucketOf rules name ↔ rule.key = name ∧ rule ∈ Slots.live rules := by
  have latest := Slots.latest_anchoredAt rules name rule.slot
  have sameName : rule.slot.name = rule.key := rfl
  rw [bucketOf, Bucket.mem_sort, Slots.mem_live_iff, Slots.mem_live_iff, latest, sameName]
  by_cases here : rule.key = name
  · simp [here]
  · simp [here]

/-- What is left out by slots may be left out of all rules, before they compete for places. -/
theorem filter_bucketOf (rules : List Rule) (name : String) (test : Slot → Bool) :
    (bucketOf rules name).filter (fun rule => test rule.slot) =
      bucketOf (rules.filter fun rule => test rule.slot) name := by
  rw [bucketOf, bucketOf, Bucket.filter_sort, Slots.filter_live, Slots.anchoredAt, Slots.anchoredAt,
    List.filter_comm]

theorem map_bucketOf {change : Rule → Rule} (keeps : ∀ rule, (change rule).slot = rule.slot)
    (rules : List Rule) (name : String) :
    (bucketOf rules name).map change = bucketOf (rules.map change) name := by
  have anchored : (Slots.anchoredAt name rules).map change =
      Slots.anchoredAt name (rules.map change) := by
    have sameKey : ∀ rule, (change rule).key = rule.key :=
      fun rule => congrArg Slot.name (keeps rule)
    rw [Slots.anchoredAt, Slots.anchoredAt, List.filter_map]
    simp only [Function.comp_def, sameKey]
  rw [bucketOf, bucketOf, Bucket.map_sort keeps, Slots.map_live keeps, anchored]

theorem nodup_bucketOf (rules : List Rule) (name : String) : (bucketOf rules name).Nodup :=
  (Bucket.sort_perm _).nodup_iff.mpr (Slots.nodup_live _)

/-- The store is what insertions of these rules, in this order, lead to. -/
structure LeftBy (rules : List Rule) (store : RuleStore) : Prop where
  nextId : store.nextId = rules.length
  size : store.size = (Slots.ofRules rules).length
  names : store.buckets.keys = (rules.map Rule.key).eraseDups
  bucket : ∀ name, store.rulesAnchoredAt name = bucketOf rules name

theorem leftBy_empty : LeftBy [] ∅ := by
  refine ⟨rfl, rfl, rfl, ?_⟩
  intro name
  have noRules : bucketOf [] name = [] := List.mergeSort_nil
  rw [noRules]
  rfl

/-! ### One insertion -/

def withBucket (store : RuleStore) (name : String) (bucket : List Rule) (size : Nat) : RuleStore :=
  ⟨store.buckets.insert name bucket, store.nextId + 1, size⟩

theorem rulesAnchoredAt_withBucket (store : RuleStore) (name other : String) (bucket : List Rule)
    (size : Nat) : (store.withBucket name bucket size).rulesAnchoredAt other =
      if name = other then bucket else store.rulesAnchoredAt other := by
  rw [rulesAnchoredAt, withBucket, OrderedMap.get?_insert]
  split
  · rfl
  · rfl

theorem add_of_held {store : RuleStore} {next : Insertion} {rule old : Rule}
    (isNext : rule = next.toRule store.nextId)
    (found : (store.rulesAnchoredAt rule.key).find? (fun held => held.sameSlot rule) = some old) :
    store.add next = (.replaced old.id rule.id, store.withBucket rule.key
      (Bucket.sort (Bucket.replace rule (store.rulesAnchoredAt rule.key))) store.size) := by
  subst isNext
  unfold add insert
  simp only [Insertion.toRule] at found
  simp only [found]
  rfl

theorem add_of_new {store : RuleStore} {next : Insertion} {rule : Rule}
    (isNext : rule = next.toRule store.nextId)
    (missing : (store.rulesAnchoredAt rule.key).find? (fun held => held.sameSlot rule) = none) :
    store.add next = (.inserted rule.id, store.withBucket rule.key
      (Bucket.sort (store.rulesAnchoredAt rule.key ++ [rule])) (store.size + 1)) := by
  subst isNext
  unfold add insert
  simp only [Insertion.toRule] at missing
  simp only [missing]
  rfl

namespace LeftBy

variable {rules : List Rule} {store : RuleStore}

theorem find?_bucket (left : LeftBy rules store) (rule : Rule) :
    (store.rulesAnchoredAt rule.key).find? (fun held => held.sameSlot rule) =
      Slots.latest rules rule.slot := by
  rw [left.bucket, bucketOf, Bucket.find?_sort_live, Slots.latest_anchoredAt_key]

/-- A store stays in step when the bucket of the new rule does. -/
theorem withBucket (left : LeftBy rules store) (rule : Rule) {bucket : List Rule} {size : Nat}
    (sameBucket : bucket = bucketOf (rules ++ [rule]) rule.key)
    (sameSize : size = (Slots.ofRules (rules ++ [rule])).length) :
    LeftBy (rules ++ [rule]) (store.withBucket rule.key bucket size) := by
  refine ⟨?_, sameSize, ?_, ?_⟩
  · rw [List.length_append, List.length_singleton, ← left.nextId]
    rfl
  · have known : rule.key ∈ store.buckets.keys ↔ rule.key ∈ rules.map Rule.key := by
      rw [left.names, List.mem_eraseDups]
    have keys := OrderedMap.keys_insert store.buckets rule.key bucket
    rw [List.map_append, List.map_singleton, eraseDups_append_singleton, ← left.names]
    simp only [known] at keys
    exact keys
  · intro name
    rw [rulesAnchoredAt_withBucket]
    by_cases here : rule.key = name
    · rw [if_pos here, sameBucket, here]
    · rw [if_neg here, left.bucket, bucketOf, bucketOf, Slots.anchoredAt_append_singleton,
        if_neg here]

theorem add_of_latest (left : LeftBy rules store) {next : Insertion} {old : Rule}
    (last : Slots.latest rules next.slot = some old) :
    (store.add next).1 = .replaced old.id ⟨rules.length⟩ ∧
      LeftBy (rules ++ [next.toRule rules.length]) (store.add next).2 := by
  obtain ⟨rule, isNext⟩ : ∃ rule, rule = next.toRule rules.length := ⟨_, rfl⟩
  have sameSlot : rule.slot = next.slot := by rw [isNext]; rfl
  have found := left.find?_bucket rule
  rw [sameSlot, last] at found
  have held : rule.slot ∈ Slots.ofRules rules := by
    rw [sameSlot]
    exact Slots.mem_ofRules_of_latest last
  rw [add_of_held (left.nextId ▸ isNext) found, ← isNext]
  refine ⟨by rw [isNext]; rfl, left.withBucket rule ?_ ?_⟩
  · rw [left.bucket, bucketOf, bucketOf_own]
    exact Bucket.sort_replace_live (Slots.mem_ofRules_anchoredAt.mpr held)
  · rw [left.size, Slots.ofRules_append_singleton, if_pos held]

theorem add_of_no_latest (left : LeftBy rules store) {next : Insertion}
    (noLast : Slots.latest rules next.slot = none) :
    (store.add next).1 = .inserted ⟨rules.length⟩ ∧
      LeftBy (rules ++ [next.toRule rules.length]) (store.add next).2 := by
  obtain ⟨rule, isNext⟩ : ∃ rule, rule = next.toRule rules.length := ⟨_, rfl⟩
  have sameSlot : rule.slot = next.slot := by rw [isNext]; rfl
  have missing := left.find?_bucket rule
  rw [sameSlot, noLast] at missing
  have fresh : rule.slot ∉ Slots.ofRules rules := by
    rw [sameSlot]
    exact Slots.latest_eq_none_iff.mp noLast
  rw [add_of_new (left.nextId ▸ isNext) missing, ← isNext]
  refine ⟨by rw [isNext]; rfl, left.withBucket rule ?_ ?_⟩
  · rw [left.bucket, bucketOf, bucketOf_own]
    exact Bucket.sort_append_live fun held => fresh (Slots.mem_ofRules_anchoredAt.mp held)
  · rw [left.size, Slots.ofRules_append_singleton, if_neg fresh, List.length_append,
      List.length_singleton]

/-- The answer to an insertion: which rule gives way is decided by the last one of the slot. -/
theorem outcome_add (left : LeftBy rules store) (next : Insertion) :
    (store.add next).1 = match Slots.latest rules next.slot with
      | some old => .replaced old.id ⟨rules.length⟩
      | none => .inserted ⟨rules.length⟩ := by
  cases last : Slots.latest rules next.slot with
  | some old => exact (left.add_of_latest last).1
  | none => exact (left.add_of_no_latest last).1

theorem add (left : LeftBy rules store) (next : Insertion) :
    LeftBy (rules ++ [next.toRule rules.length]) (store.add next).2 := by
  cases last : Slots.latest rules next.slot with
  | some old => exact (left.add_of_latest last).2
  | none => exact (left.add_of_no_latest last).2

/-! ### All rules of a store -/

theorem keysDistinct (left : LeftBy rules store) : store.buckets.KeysDistinct := by
  unfold OrderedMap.KeysDistinct
  rw [left.names]
  exact nodup_eraseDups _

theorem rules_eq (left : LeftBy rules store) :
    store.rules = (rules.map Rule.key).eraseDups.flatMap (bucketOf rules) := by
  have byName := OrderedMap.values_eq_map left.keysDistinct []
  have anchored : ∀ name, (store.buckets.get? name).getD [] = bucketOf rules name := left.bucket
  simp only [anchored, left.names] at byName
  rw [RuleStore.rules, byName]
  rfl

theorem nodup_rules (left : LeftBy rules store) : store.rules.Nodup := by
  rw [left.rules_eq, List.nodup_flatMap]
  constructor
  · intro name _
    exact nodup_bucketOf rules name
  · apply (nodup_eraseDups (rules.map Rule.key)).imp
    intro name other different rule inBucket inOther
    apply different
    rw [← (mem_bucketOf.mp inBucket).1, ← (mem_bucketOf.mp inOther).1]

theorem rules_perm (left : LeftBy rules store) : store.rules.Perm (Slots.live rules) := by
  refine (List.perm_ext_iff_of_nodup left.nodup_rules (Slots.nodup_live rules)).mpr ?_
  intro rule
  rw [left.rules_eq, List.mem_flatMap]
  constructor
  · rintro ⟨name, _, inBucket⟩
    exact (mem_bucketOf.mp inBucket).2
  · intro isLive
    refine ⟨rule.key, ?_, mem_bucketOf.mpr ⟨rfl, isLive⟩⟩
    exact List.mem_eraseDups.mpr (List.mem_map_of_mem (Slots.mem_of_live isLive))

end LeftBy

/-! ### Any number of insertions -/

theorem leftBy_ofInsertions (insertions : List Insertion) :
    LeftBy (Insertion.numbered insertions) (ofInsertions insertions) := by
  induction insertions using List.reverseRecOn with
  | nil => exact leftBy_empty
  | append_singleton front next ih =>
      -- The last insertion meets a store that the others have left, and their number is its id.
      rw [Insertion.numbered_append_singleton, ofInsertions_append_singleton,
        ← Insertion.length_numbered front]
      exact ih.add next

/-- After any insertions, each bucket is what one stable sort makes of the rules that the slots of
its name are left with. The ids count the insertions. -/
theorem ofInsertions_eq_reference (insertions : List Insertion) :
    (∀ name, (ofInsertions insertions).rulesAnchoredAt name =
      (Slots.live (Slots.anchoredAt name (Insertion.numbered insertions))).mergeSort
        Rule.mayPrecede) ∧
    (∀ next : Insertion,
      ((ofInsertions insertions).insert next.selector next.payload next.rank).1 =
        match Slots.latest (Insertion.numbered insertions) next.slot with
        | some old => .replaced old.id ⟨insertions.length⟩
        | none => .inserted ⟨insertions.length⟩) ∧
    (Insertion.numbered insertions).map Rule.id =
      (List.range insertions.length).map RuleId.mk ∧
    (ofInsertions insertions).size = (Slots.ofRules (Insertion.numbered insertions)).length ∧
    (ofInsertions insertions).bucketCount =
      ((Insertion.numbered insertions).map Rule.key).eraseDups.length ∧
    (ofInsertions insertions).rules.Perm (Slots.live (Insertion.numbered insertions)) ∧
    (ofInsertions insertions).rules.Nodup := by
  have left := leftBy_ofInsertions insertions
  refine ⟨?_, ?_, Insertion.ids_numbered insertions, left.size, ?_, left.rules_perm,
    left.nodup_rules⟩
  · intro name
    rw [left.bucket, bucketOf, Bucket.sort_eq]
  · intro next
    have outcome := left.outcome_add next
    rw [Insertion.length_numbered] at outcome
    exact outcome
  · rw [← left.names]
    exact (List.length_map Prod.fst).symm

end RuleStore

end Cascade
