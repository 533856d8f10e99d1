import Cascade.Rule.Basic
import Mathlib.Data.List.Induction
import Mathlib.Data.List.Nodup
set_option autoImplicit false

/-! What a sequence of insertions leaves behind, read off the whole sequence: each slot, which is
a selector with a rank, has the rule of its last insertion, and the slots stand in the order of
their first insertions. Main statements: what one more insertion does to the rules left behind. -/

namespace Cascade

/-- The place of a rule, which rules with its selector and rank compete for. -/
structure Slot where
  selector : Selector
  rank : Rank
deriving DecidableEq

namespace Slot

def name (slot : Slot) : String := slot.selector.name

end Slot

namespace Rule

def slot (rule : Rule) : Slot := ⟨rule.selector, rule.rank⟩

theorem sameSlot_iff (rule other : Rule) : rule.sameSlot other = true ↔ rule.slot = other.slot := by
  simp only [sameSlot, slot, Bool.and_eq_true, beq_iff_eq, Slot.mk.injEq]
  exact And.comm

end Rule

/-! ### First occurrences -/

section Occurrences

variable {α : Type} [DecidableEq α]

theorem eraseDups_append_singleton (elements : List α) (element : α) :
    (elements ++ [element]).eraseDups =
      if element ∈ elements then elements.eraseDups else elements.eraseDups ++ [element] := by
  rw [List.eraseDups_append]
  by_cases known : element ∈ elements
  · have nothing : [element].removeAll elements = [] := by simp [List.removeAll, known]
    rw [nothing, List.eraseDups_nil, List.append_nil, if_pos known]
  · have itself : [element].removeAll elements = [element] := by simp [List.removeAll, known]
    have single : [element].eraseDups = [element] := by simp [List.eraseDups_cons]
    rw [itself, single, if_neg known]

theorem nodup_eraseDups (elements : List α) : elements.eraseDups.Nodup := by
  induction elements using List.reverseRecOn with
  | nil => exact List.nodup_nil
  | append_singleton front element ih =>
      rw [eraseDups_append_singleton]
      split
      · exact ih
      · next fresh =>
          refine List.nodup_append.mpr ⟨ih, List.nodup_singleton element, ?_⟩
          intro held inFront other isElement same
          rw [List.mem_singleton.mp isElement] at same
          exact fresh (List.mem_eraseDups.mp (same ▸ inFront))

theorem filter_eraseDups (keep : α → Bool) (elements : List α) :
    elements.eraseDups.filter keep = (elements.filter keep).eraseDups := by
  induction elements using List.reverseRecOn with
  | nil => rfl
  | append_singleton front element ih =>
      rw [eraseDups_append_singleton, List.filter_append]
      by_cases kept : keep element = true
      · have single : [element].filter keep = [element] := List.filter_cons_of_pos kept
        have known : element ∈ front.filter keep ↔ element ∈ front := by
          rw [List.mem_filter, and_iff_left kept]
        rw [single, eraseDups_append_singleton, ← ih]
        simp only [known]
        split
        · rfl
        · rw [List.filter_append, single]
      · have nothing : [element].filter keep = [] := List.filter_cons_of_neg kept
        rw [nothing, List.append_nil, ← ih]
        split
        · rfl
        · rw [List.filter_append, nothing, List.append_nil]

end Occurrences

namespace Slots

/-- The slots of rules, in the order of their first insertions. -/
def ofRules (rules : List Rule) : List Slot := (rules.map Rule.slot).eraseDups

def anchoredAt (name : String) (rules : List Rule) : List Rule :=
  rules.filter fun rule => rule.key = name

/-- The last rule that was inserted in a slot. -/
def latest (rules : List Rule) (slot : Slot) : Option Rule :=
  (rules.filter fun rule => rule.slot = slot).getLast?

/-- The rule that every slot is left with. -/
def live (rules : List Rule) : List Rule := (ofRules rules).filterMap (latest rules)

variable {rules : List Rule} {rule : Rule} {slot : Slot}

theorem mem_ofRules : slot ∈ ofRules rules ↔ ∃ rule ∈ rules, rule.slot = slot := by
  rw [ofRules, List.mem_eraseDups, List.mem_map]

theorem ofRules_append_singleton (rules : List Rule) (rule : Rule) :
    ofRules (rules ++ [rule]) =
      if rule.slot ∈ ofRules rules then ofRules rules else ofRules rules ++ [rule.slot] := by
  have known : rule.slot ∈ rules.map Rule.slot ↔ rule.slot ∈ ofRules rules :=
    List.mem_eraseDups.symm
  rw [ofRules, List.map_append, List.map_singleton, eraseDups_append_singleton]
  simp only [known]
  rfl

/-! ### The last rule of a slot -/

theorem mem_of_latest (last : latest rules slot = some rule) : rule ∈ rules ∧ rule.slot = slot := by
  have found := List.mem_filter.mp (List.mem_of_getLast? last)
  exact ⟨found.1, of_decide_eq_true found.2⟩

theorem mem_ofRules_of_latest (last : latest rules slot = some rule) : slot ∈ ofRules rules :=
  mem_ofRules.mpr ⟨rule, mem_of_latest last⟩

theorem latest_eq_none_iff : latest rules slot = none ↔ slot ∉ ofRules rules := by
  rw [latest, List.getLast?_eq_none_iff, List.filter_eq_nil_iff, mem_ofRules]
  constructor
  · rintro noRule ⟨rule, present, same⟩
    exact noRule rule present (decide_eq_true same)
  · intro absent rule present same
    exact absent ⟨rule, present, of_decide_eq_true same⟩

theorem exists_latest (held : slot ∈ ofRules rules) : ∃ rule, latest rules slot = some rule := by
  cases last : latest rules slot with
  | none => exact absurd held (latest_eq_none_iff.mp last)
  | some rule => exact ⟨rule, rfl⟩

theorem latest_append_singleton (rules : List Rule) (rule : Rule) (slot : Slot) :
    latest (rules ++ [rule]) slot = if rule.slot = slot then some rule else latest rules slot := by
  rw [latest, List.filter_append, List.filter_singleton]
  by_cases same : rule.slot = slot
  · simp [same]
  · simp [same, latest]

/-! ### The rules of one anchor name -/

theorem anchoredAt_append_singleton (name : String) (rules : List Rule) (rule : Rule) :
    anchoredAt name (rules ++ [rule]) =
      if rule.key = name then anchoredAt name rules ++ [rule] else anchoredAt name rules := by
  rw [anchoredAt, List.filter_append, List.filter_singleton]
  by_cases here : rule.key = name
  · simp [here, anchoredAt]
  · simp [here, anchoredAt]

theorem latest_anchoredAt (rules : List Rule) (name : String) (slot : Slot) :
    latest (anchoredAt name rules) slot = if slot.name = name then latest rules slot else none := by
  rw [latest, anchoredAt, List.filter_filter]
  by_cases same : slot.name = name
  · rw [if_pos same, latest]
    congr 1
    apply List.filter_congr
    intro rule _
    by_cases here : rule.slot = slot
    · have anchored : rule.key = name := by rw [← same, ← here]; rfl
      simp [here, anchored]
    · simp [here]
  · rw [if_neg same, List.getLast?_eq_none_iff, List.filter_eq_nil_iff]
    intro rule _ chosen
    simp only [Bool.and_eq_true, decide_eq_true_eq] at chosen
    apply same
    rw [← chosen.1, ← chosen.2]
    rfl

theorem latest_anchoredAt_key (rules : List Rule) (rule : Rule) :
    latest (anchoredAt rule.key rules) rule.slot = latest rules rule.slot := by
  rw [latest_anchoredAt, if_pos]
  rfl

theorem mem_ofRules_anchoredAt :
    rule.slot ∈ ofRules (anchoredAt rule.key rules) ↔ rule.slot ∈ ofRules rules := by
  rw [← not_iff_not, ← latest_eq_none_iff, ← latest_eq_none_iff, latest_anchoredAt_key]

/-! ### The rules that are left -/

theorem mem_live_iff : rule ∈ live rules ↔ latest rules rule.slot = some rule := by
  rw [live, List.mem_filterMap]
  constructor
  · rintro ⟨slot, _, last⟩
    rw [(mem_of_latest last).2]
    exact last
  · intro last
    exact ⟨rule.slot, mem_ofRules_of_latest last, last⟩

theorem mem_of_live (isLive : rule ∈ live rules) : rule ∈ rules :=
  (mem_of_latest (mem_live_iff.mp isLive)).1

theorem slots_live (rules : List Rule) : (live rules).map Rule.slot = ofRules rules := by
  rw [live, List.map_filterMap]
  calc (ofRules rules).filterMap (fun slot => (latest rules slot).map Rule.slot)
      = (ofRules rules).filterMap some := by
        apply List.filterMap_congr
        intro slot held
        obtain ⟨rule, last⟩ := exists_latest held
        rw [last, Option.map_some, (mem_of_latest last).2]
    _ = ofRules rules := List.filterMap_some

theorem nodup_slots_live (rules : List Rule) : ((live rules).map Rule.slot).Nodup := by
  rw [slots_live]
  exact nodup_eraseDups _

theorem nodup_live (rules : List Rule) : (live rules).Nodup := (nodup_slots_live rules).of_map _

theorem live_append_of_new (fresh : rule.slot ∉ ofRules rules) :
    live (rules ++ [rule]) = live rules ++ [rule] := by
  have unchanged : (ofRules rules).filterMap (latest (rules ++ [rule])) = live rules := by
    apply List.filterMap_congr
    intro slot held
    have other : rule.slot ≠ slot := fun same => fresh (same ▸ held)
    rw [latest_append_singleton, if_neg other]
  rw [live, ofRules_append_singleton, if_neg fresh, List.filterMap_append, unchanged]
  simp [latest_append_singleton]

/-- The newcomer goes where the rule of its slot was. -/
theorem live_append_of_held (held : rule.slot ∈ ofRules rules) :
    live (rules ++ [rule]) =
      (live rules).map fun old => if old.slot = rule.slot then rule else old := by
  rw [live, ofRules_append_singleton, if_pos held, live, List.map_filterMap]
  apply List.filterMap_congr
  intro slot present
  obtain ⟨old, last⟩ := exists_latest present
  rw [latest_append_singleton, last, Option.map_some, (mem_of_latest last).2]
  by_cases same : rule.slot = slot
  · rw [if_pos same, if_pos same.symm]
  · rw [if_neg same, if_neg (Ne.symm same)]

/-! ### Fewer rules, or rules that are changed within their slots -/

theorem latest_filter (rules : List Rule) (test : Slot → Bool) (slot : Slot) :
    latest (rules.filter fun rule => test rule.slot) slot =
      if test slot then latest rules slot else none := by
  rw [latest, List.filter_filter]
  by_cases chosen : test slot = true
  · rw [if_pos chosen, latest]
    congr 1
    apply List.filter_congr
    intro rule _
    by_cases here : rule.slot = slot
    · simp [here, chosen]
    · simp [here]
  · rw [if_neg chosen, List.getLast?_eq_none_iff, List.filter_eq_nil_iff]
    intro rule _ both
    simp only [Bool.and_eq_true, decide_eq_true_eq] at both
    exact chosen (both.1 ▸ both.2)

/-- Whole slots may be left out before or after the rules compete for them. -/
theorem filter_live (rules : List Rule) (test : Slot → Bool) :
    (live rules).filter (fun rule => test rule.slot) =
      live (rules.filter fun rule => test rule.slot) := by
  have slots : ofRules (rules.filter fun rule => test rule.slot) = (ofRules rules).filter test := by
    rw [ofRules, ofRules, filter_eraseDups, List.filter_map]
    rfl
  rw [live, live, slots, List.filter_filterMap, List.filterMap_filter]
  apply List.filterMap_congr
  intro slot held
  obtain ⟨rule, last⟩ := exists_latest held
  rw [latest_filter, last, Option.filter_some, (mem_of_latest last).2]
  split
  · rfl
  · rfl

theorem map_live {change : Rule → Rule} (keeps : ∀ rule, (change rule).slot = rule.slot)
    (rules : List Rule) : (live rules).map change = live (rules.map change) := by
  have slots : ofRules (rules.map change) = ofRules rules := by
    rw [ofRules, ofRules, List.map_map]
    congr 1
    apply List.map_congr_left
    intro rule _
    exact keeps rule
  have lasts : ∀ slot, latest (rules.map change) slot = (latest rules slot).map change := by
    intro slot
    rw [latest, latest, List.filter_map, List.getLast?_map]
    simp only [Function.comp_def, keeps]
  rw [live, live, slots, List.map_filterMap]
  simp only [lasts]

end Slots

end Cascade
