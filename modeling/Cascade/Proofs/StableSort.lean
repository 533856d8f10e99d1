import Mathlib.Data.List.Basic
set_option autoImplicit false

/-! Stable sorting by a total preorder. A sorted list is determined by what it has, in order, of
each class of tied elements, and sorting keeps that. So a list may be sorted early, before more
elements come to its end, with no effect on its final order. -/

namespace Cascade.StableSort

variable {α : Type} {le : α → α → Bool}

/-- Neither element has to come before the other. -/
def tied (le : α → α → Bool) (left right : α) : Bool := le left right && le right left

theorem tied_iff {left right : α} :
    tied le left right = true ↔ le left right = true ∧ le right left = true := by
  rw [tied, Bool.and_eq_true]

section Order

variable (total : ∀ left right, (le left right || le right left) = true)

include total in
theorem tied_self (element : α) : tied le element element = true := by
  have reflexive := total element element
  rw [Bool.or_self] at reflexive
  exact tied_iff.mpr ⟨reflexive, reflexive⟩

include total in
theorem tied_of_heads {first second : α} {front back : List α}
    (sortedFront : (first :: front).Pairwise (le · ·))
    (sortedBack : (second :: back).Pairwise (le · ·))
    (same : ∀ element, (first :: front).filter (tied le element) =
      (second :: back).filter (tied le element)) : tied le first second = true := by
  have inBack : first ∈ second :: back := by
    have found : first ∈ (first :: front).filter (tied le first) :=
      List.mem_filter.mpr ⟨List.mem_cons_self, tied_self total first⟩
    rw [same first] at found
    exact (List.mem_filter.mp found).1
  have inFront : second ∈ first :: front := by
    have found : second ∈ (second :: back).filter (tied le second) :=
      List.mem_filter.mpr ⟨List.mem_cons_self, tied_self total second⟩
    rw [← same second] at found
    exact (List.mem_filter.mp found).1
  refine tied_iff.mpr ⟨?_, ?_⟩
  · cases List.mem_cons.mp inFront with
    | inl equal =>
        subst equal
        exact (tied_iff.mp (tied_self total second)).1
    | inr later => exact (List.pairwise_cons.mp sortedFront).1 second later
  · cases List.mem_cons.mp inBack with
    | inl equal =>
        subst equal
        exact (tied_iff.mp (tied_self total first)).1
    | inr later => exact (List.pairwise_cons.mp sortedBack).1 first later

include total in
/-- A sorted list is determined by its classes of tied elements. -/
theorem eq_of_sorted {left right : List α} (sortedLeft : left.Pairwise (le · ·))
    (sortedRight : right.Pairwise (le · ·))
    (same : ∀ element, left.filter (tied le element) = right.filter (tied le element)) :
    left = right := by
  induction left generalizing right with
  | nil =>
      cases right with
      | nil => rfl
      | cons second back =>
          have impossible := same second
          rw [List.filter_nil, List.filter_cons_of_pos (tied_self total second)] at impossible
          cases impossible
  | cons first front ih =>
      cases right with
      | nil =>
          have impossible := same first
          rw [List.filter_nil, List.filter_cons_of_pos (tied_self total first)] at impossible
          cases impossible
      | cons second back =>
          have headsTied := tied_of_heads total sortedLeft sortedRight same
          have classes := same first
          rw [List.filter_cons_of_pos (tied_self total first),
            List.filter_cons_of_pos headsTied] at classes
          -- One class begins with both heads, so they are not only tied but the same element.
          have sameHead : first = second := (List.cons.inj classes).1
          subst sameHead
          have sameRest : front = back := by
            apply ih (List.pairwise_cons.mp sortedLeft).2 (List.pairwise_cons.mp sortedRight).2
            intro element
            have whole := same element
            by_cases counted : tied le element first = true
            · rw [List.filter_cons_of_pos counted, List.filter_cons_of_pos counted] at whole
              exact (List.cons.inj whole).2
            · rwa [List.filter_cons_of_neg counted, List.filter_cons_of_neg counted] at whole
          rw [sameRest]

variable (trans : ∀ first second third,
  le first second = true → le second third = true → le first third = true)

include trans in
theorem pairwise_filter_tied (elements : List α) (element : α) :
    (elements.filter (tied le element)).Pairwise (le · ·) := by
  apply List.pairwise_of_forall_mem_list
  intro left inLeft right inRight
  have leftTied := tied_iff.mp (List.mem_filter.mp inLeft).2
  have rightTied := tied_iff.mp (List.mem_filter.mp inRight).2
  exact trans left element right leftTied.2 rightTied.1

include total trans in
/-- Tied elements keep their order. -/
theorem filter_tied_mergeSort (elements : List α) (element : α) :
    (elements.mergeSort le).filter (tied le element) = elements.filter (tied le element) := by
  have kept : (elements.filter (tied le element)).Sublist (elements.mergeSort le) :=
    List.sublist_mergeSort trans total (pairwise_filter_tied trans elements element)
      List.filter_sublist
  have keptInClass := kept.filter (tied le element)
  simp only [List.filter_filter, Bool.and_self] at keptInClass
  have sameLength := ((List.mergeSort_perm elements le).filter (tied le element)).length_eq
  exact (keptInClass.eq_of_length sameLength.symm).symm

include total trans in
theorem mergeSort_eq_of_classes {left right : List α}
    (same : ∀ element, left.filter (tied le element) = right.filter (tied le element)) :
    left.mergeSort le = right.mergeSort le := by
  apply eq_of_sorted total (List.pairwise_mergeSort trans total left)
    (List.pairwise_mergeSort trans total right)
  intro element
  rw [filter_tied_mergeSort total trans, filter_tied_mergeSort total trans, same element]

include total trans in
theorem mergeSort_mergeSort (elements : List α) :
    (elements.mergeSort le).mergeSort le = elements.mergeSort le :=
  List.mergeSort_of_pairwise (List.pairwise_mergeSort trans total elements)

include total trans in
/-- Elements that come to the end of a list may find the list sorted or not. -/
theorem mergeSort_mergeSort_append (front back : List α) :
    (front.mergeSort le ++ back).mergeSort le = (front ++ back).mergeSort le := by
  apply mergeSort_eq_of_classes total trans
  intro element
  rw [List.filter_append, List.filter_append, filter_tied_mergeSort total trans]

include total trans in
/-- Elements may be left out before or after the sort. -/
theorem filter_mergeSort (elements : List α) (keep : α → Bool) :
    (elements.mergeSort le).filter keep = (elements.filter keep).mergeSort le := by
  apply eq_of_sorted total ((List.pairwise_mergeSort trans total elements).filter keep)
    (List.pairwise_mergeSort trans total (elements.filter keep))
  intro element
  rw [filter_tied_mergeSort total trans, List.filter_comm, filter_tied_mergeSort total trans,
    List.filter_comm]

end Order

end Cascade.StableSort
