import Cascade.Proofs.Slots
import Cascade.Proofs.StableSort
import Cascade.Rule.Store
set_option autoImplicit false

/-! Buckets and the order of visits in them. That order is a total preorder on the slots of the
rules, so that a rule may take the place of another before or after the bucket is sorted. -/

namespace Cascade

/-! ### The order of visits -/

namespace Rule

/-- Rank descending, then specificity descending. -/
def mayPrecede (rule other : Rule) : Bool :=
  other.rank.number < rule.rank.number ||
    rule.rank == other.rank && other.specificity ≤ rule.specificity

theorem mayPrecede_iff (rule other : Rule) : rule.mayPrecede other = true ↔
    other.rank.number < rule.rank.number ∨
      rule.rank.number = other.rank.number ∧
        other.specificity.value.toNat ≤ rule.specificity.value.toNat := by
  have sameRank : rule.rank = other.rank ↔ rule.rank.number = other.rank.number := by
    cases rule.rank <;> cases other.rank <;> simp [Rank.number]
  have lessSpecific : other.specificity ≤ rule.specificity ↔
      other.specificity.value.toNat ≤ rule.specificity.value.toNat := Iff.rfl
  rw [mayPrecede, Bool.or_eq_true, Bool.and_eq_true, beq_iff_eq, decide_eq_true_iff,
    decide_eq_true_iff, sameRank, lessSpecific]

theorem outranks_iff (rule other : Rule) : rule.outranks other = true ↔
    other.rank.number < rule.rank.number ∨
      rule.rank.number = other.rank.number ∧
        other.specificity.value.toNat < rule.specificity.value.toNat := by
  have sameRank : other.rank = rule.rank ↔ rule.rank.number = other.rank.number := by
    cases rule.rank <;> cases other.rank <;> simp [Rank.number]
  have lessSpecific : other.specificity < rule.specificity ↔
      other.specificity.value.toNat < rule.specificity.value.toNat := Iff.rfl
  rw [outranks, Bool.or_eq_true, Bool.and_eq_true, beq_iff_eq, decide_eq_true_iff,
    decide_eq_true_iff, sameRank, lessSpecific]

theorem mayPrecede_eq (rule other : Rule) : rule.mayPrecede other = !other.outranks rule := by
  rw [Bool.eq_iff_iff, Bool.not_eq_true', ← Bool.not_eq_true, mayPrecede_iff, outranks_iff]
  omega

theorem mayPrecede_total (rule other : Rule) :
    (rule.mayPrecede other || other.mayPrecede rule) = true := by
  rw [Bool.or_eq_true, mayPrecede_iff, mayPrecede_iff]
  omega

theorem mayPrecede_trans (first second third : Rule) (front : first.mayPrecede second = true)
    (back : second.mayPrecede third = true) : first.mayPrecede third = true := by
  rw [mayPrecede_iff] at front back ⊢
  omega

/-- The slots alone decide. -/
theorem mayPrecede_congr {first second front back : Rule} (sameFirst : first.slot = front.slot)
    (sameSecond : second.slot = back.slot) : first.mayPrecede second = front.mayPrecede back := by
  obtain ⟨firstSelector, firstRank⟩ := Slot.mk.inj sameFirst
  obtain ⟨secondSelector, secondRank⟩ := Slot.mk.inj sameSecond
  rw [Bool.eq_iff_iff, mayPrecede_iff, mayPrecede_iff, specificity, specificity, specificity,
    specificity, firstSelector, firstRank, secondSelector, secondRank]

end Rule

namespace Bucket

theorem sort_eq (rules : List Rule) : sort rules = rules.mergeSort Rule.mayPrecede := by
  rw [sort]
  congr 1
  funext rule other
  exact (rule.mayPrecede_eq other).symm

theorem mem_sort {rule : Rule} {rules : List Rule} : rule ∈ sort rules ↔ rule ∈ rules :=
  List.mem_mergeSort

theorem sort_perm (rules : List Rule) : (sort rules).Perm rules := List.mergeSort_perm rules _

theorem sort_sort (rules : List Rule) : sort (sort rules) = sort rules := by
  rw [sort_eq, sort_eq]
  exact StableSort.mergeSort_mergeSort Rule.mayPrecede_total Rule.mayPrecede_trans rules

theorem filter_sort (rules : List Rule) (keep : Rule → Bool) :
    (sort rules).filter keep = sort (rules.filter keep) := by
  rw [sort_eq, sort_eq]
  exact StableSort.filter_mergeSort Rule.mayPrecede_total Rule.mayPrecede_trans rules keep

theorem map_sort {change : Rule → Rule} (keeps : ∀ rule, (change rule).slot = rule.slot)
    (rules : List Rule) : (sort rules).map change = sort (rules.map change) := by
  rw [sort_eq, sort_eq]
  apply List.map_mergeSort
  intro first _ second _
  exact Rule.mayPrecede_congr (keeps first).symm (keeps second).symm

theorem sort_sort_append (front back : List Rule) :
    sort (sort front ++ back) = sort (front ++ back) := by
  rw [sort_eq, sort_eq, sort_eq]
  exact StableSort.mergeSort_mergeSort_append Rule.mayPrecede_total Rule.mayPrecede_trans front back

/-- The rule itself in its slot, any other rule as it is. -/
def settle (rule old : Rule) : Rule := if old.slot = rule.slot then rule else old

theorem slot_settle (rule old : Rule) : (settle rule old).slot = old.slot := by
  rw [settle]
  split
  · next same => exact same.symm
  · rfl

theorem replace_eq_map {rules : List Rule} (distinct : (rules.map Rule.slot).Nodup) (rule : Rule) :
    replace rule rules = rules.map (settle rule) := by
  induction rules with
  | nil => rfl
  | cons first rest ih =>
      rw [List.map_cons, List.nodup_cons] at distinct
      rw [replace, List.map_cons, settle]
      by_cases same : first.slot = rule.slot
      · have untouched : rest.map (settle rule) = rest := by
          calc rest.map (settle rule) = rest.map id := by
                apply List.map_congr_left
                intro old inRest
                have other : old.slot ≠ rule.slot := by
                  intro clash
                  apply distinct.1
                  rw [same, ← clash]
                  exact List.mem_map_of_mem inRest
                rw [settle, if_neg other, id]
            _ = rest := List.map_id rest
        rw [if_pos ((first.sameSlot_iff rule).mpr same), if_pos same, untouched]
      · rw [if_neg fun here => same ((first.sameSlot_iff rule).mp here), if_neg same,
          ih distinct.2]

/-! ### The bucket of a history -/

variable {rules : List Rule} {rule : Rule}

theorem find?_sort_live (rules : List Rule) (rule : Rule) :
    (sort (Slots.live rules)).find? (fun held => held.sameSlot rule) =
      Slots.latest rules rule.slot := by
  cases found : (sort (Slots.live rules)).find? (fun held => held.sameSlot rule) with
  | some held =>
      have isLive := mem_sort.mp (List.mem_of_find?_eq_some found)
      have chosen := List.find?_some found
      have same : held.slot = rule.slot := (held.sameSlot_iff rule).mp chosen
      rw [← same]
      exact (Slots.mem_live_iff.mp isLive).symm
  | none =>
      cases last : Slots.latest rules rule.slot with
      | none => rfl
      | some held =>
          have same := (Slots.mem_of_latest last).2
          have isLive : held ∈ Slots.live rules := by
            rw [Slots.mem_live_iff, same]
            exact last
          exact absurd ((held.sameSlot_iff rule).mpr same)
            (List.find?_eq_none.mp found held (mem_sort.mpr isLive))

theorem sort_replace_live (held : rule.slot ∈ Slots.ofRules rules) :
    sort (replace rule (sort (Slots.live rules))) = sort (Slots.live (rules ++ [rule])) := by
  have distinct : ((sort (Slots.live rules)).map Rule.slot).Nodup :=
    ((sort_perm (Slots.live rules)).map Rule.slot).nodup_iff.mpr (Slots.nodup_slots_live rules)
  calc sort (replace rule (sort (Slots.live rules)))
      = sort ((sort (Slots.live rules)).map (settle rule)) := by rw [replace_eq_map distinct]
    -- The newcomer has the selector and rank of the rule it replaces, so no comparison changes.
    _ = sort (sort ((Slots.live rules).map (settle rule))) := by rw [map_sort (slot_settle rule)]
    _ = sort ((Slots.live rules).map (settle rule)) := sort_sort _
    _ = sort (Slots.live (rules ++ [rule])) := by
        rw [Slots.live_append_of_held held]
        rfl

theorem sort_append_live (fresh : rule.slot ∉ Slots.ofRules rules) :
    sort (sort (Slots.live rules) ++ [rule]) = sort (Slots.live (rules ++ [rule])) := by
  rw [sort_sort_append, Slots.live_append_of_new fresh]

end Bucket

end Cascade
