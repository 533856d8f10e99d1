import Cascade.Proofs.Grammar
import Mathlib.Algebra.BigOperators.Group.List.Basic
import Mathlib.Algebra.GroupWithZero.Nat
import Mathlib.Data.List.Induction
set_option autoImplicit false

/-! Specificities in exact numbers. Every operation on them stops at the greatest word. It makes no
difference where: the specificity of a selector is its weight, stopped once. -/

namespace Cascade

namespace Specificity

theorem toNat_saturate (number : Nat) : (saturate number).toNat = min number 0xffffffff := by
  have fits : min number 0xffffffff < 2 ^ 32 := by omega
  rw [saturate, UInt32.toNat_ofNat', Nat.mod_eq_of_lt fits]

theorem toNat_ofVariantCount (count : Nat) :
    (ofVariantCount count).value.toNat = min (256 * count + 1) 0xffffffff := by
  unfold ofVariantCount
  simp only [toNat_saturate]
  omega

theorem toNat_add (left right : Specificity) :
    (left.add right).value.toNat = min (left.value.toNat + right.value.toNat) 0xffffffff :=
  toNat_saturate _

/-- Parts that were stopped on their own do not change where the sum stops. -/
theorem toNat_sum {ι : Type} {part : ι → Specificity} {weight : ι → Nat}
    (stopped : ∀ item, (part item).value.toNat = min (weight item) 0xffffffff) (items : List ι) :
    (sum (items.map part)).value.toNat = min (items.map weight).sum 0xffffffff := by
  induction items using List.reverseRecOn with
  | nil => rfl
  | append_singleton front last ih =>
      have one : sum ((front ++ [last]).map part) = (sum (front.map part)).add (part last) := by
        rw [List.map_append, sum, List.foldl_append]
        rfl
      rw [one, toNat_add, ih, stopped, List.map_append, List.sum_append, List.map_singleton,
        List.sum_singleton]
      omega

theorem eq_iff (left right : Specificity) :
    left = right ↔ left.value.toNat = right.value.toNat := by
  rw [UInt32.toNat_inj]
  exact Specificity.mk.injEq left.value right.value ▸ Iff.rfl

theorem le_iff (left right : Specificity) : left ≤ right ↔ left.value.toNat ≤ right.value.toNat :=
  Iff.rfl

theorem lt_iff (left right : Specificity) : left < right ↔ left.value.toNat < right.value.toNat :=
  Iff.rfl

end Specificity

namespace Term

/-- What a term counts: one, and 256 for each of its variants. -/
def weight (term : Term) : Nat := 256 * term.variants.length + 1

theorem toNat_specificity (term : Term) :
    term.specificity.value.toNat = min term.weight 0xffffffff := by
  rw [specificity, Specificity.toNat_ofVariantCount, weight]

end Term

namespace Selector

def weight (selector : Selector) : Nat := (selector.terms.map Term.weight).sum

theorem toNat_specificity (selector : Selector) :
    selector.specificity.value.toNat = min selector.weight 0xffffffff := by
  rw [specificity, Specificity.toNat_sum Term.toNat_specificity, weight]

theorem exists_ofTerms {terms : List Term} (nonempty : terms ≠ []) :
    ∃ selector, ofTerms terms = .ok selector ∧ selector.terms = terms := by
  cases made : ofTerms terms with
  | ok selector => exact ⟨selector, rfl, (ofTerms_eq_ok_iff terms selector).mp made⟩
  | error problem => exact absurd ((ofTerms_eq_error_iff terms problem).mp made).1 nonempty

theorem specificity_eq_of_perm {selector other : Selector}
    (perm : other.terms.Perm selector.terms) : other.specificity = selector.specificity := by
  rw [Specificity.eq_iff, toNat_specificity, toNat_specificity, weight, weight,
    (perm.map Term.weight).sum_eq]

theorem specificity_append {whole outer inner : Selector}
    (joined : whole.terms = outer.terms ++ inner.terms) :
    whole.specificity = outer.specificity + inner.specificity := by
  have weights : whole.weight = outer.weight + inner.weight := by
    rw [weight, joined, List.map_append, List.sum_append]
    rfl
  have added : (outer.specificity + inner.specificity).value.toNat =
      min (outer.specificity.value.toNat + inner.specificity.value.toNat) 0xffffffff :=
    Specificity.toNat_add _ _
  rw [Specificity.eq_iff, added, toNat_specificity, toNat_specificity, toNat_specificity, weights]
  omega

/-- The specificity never falls while terms are added. -/
theorem sum_prefix_le {selector : Selector} {front : List Term}
    (starts : front <+: selector.terms) :
    Specificity.sum (front.map Term.specificity) ≤ selector.specificity := by
  obtain ⟨back, joined⟩ := starts
  have weights : selector.weight = (front.map Term.weight).sum + (back.map Term.weight).sum := by
    rw [weight, ← joined, List.map_append, List.sum_append]
  rw [Specificity.le_iff, Specificity.toNat_sum Term.toNat_specificity, toNat_specificity, weights]
  omega

/-- However many variants the terms have, the specificity is the exact sum of what the terms count,
or the greatest word if the sum exceeds it. The same holds of every total on the way, so that none
overflows. The order of the terms does not matter, and the parts add up to the whole. -/
theorem specificity_exact_up_to_greatest (terms : List Term) (nonempty : terms ≠ []) :
    ∃ selector, ofTerms terms = .ok selector ∧
      selector.specificity.value.toNat =
        min (2 ^ 32 - 1) (terms.map fun term => 256 * term.variants.length + 1).sum ∧
      (∀ front, front <+: terms →
        (Specificity.sum (front.map Term.specificity)).value.toNat =
            min (2 ^ 32 - 1) (front.map fun term => 256 * term.variants.length + 1).sum ∧
          Specificity.sum (front.map Term.specificity) ≤ selector.specificity) ∧
      (∀ reordered : List Term, reordered.Perm terms →
        ∃ other, ofTerms reordered = .ok other ∧ other.specificity = selector.specificity) ∧
      (∀ more, more ≠ [] → ∃ inner whole, ofTerms more = .ok inner ∧
        ofTerms (terms ++ more) = .ok whole ∧
        whole.specificity = selector.specificity + inner.specificity ∧
        whole.specificity.value.toNat =
          min (2 ^ 32 - 1)
            (selector.specificity.value.toNat + inner.specificity.value.toNat)) := by
  obtain ⟨selector, made, sameTerms⟩ := exists_ofTerms nonempty
  refine ⟨selector, made, ?_, ?_, ?_, ?_⟩
  · rw [toNat_specificity, weight, sameTerms, Nat.min_comm]
    rfl
  · intro front starts
    rw [← sameTerms] at starts
    refine ⟨?_, sum_prefix_le starts⟩
    rw [Specificity.toNat_sum Term.toNat_specificity, Nat.min_comm]
    rfl
  · intro reordered perm
    have reorderedNonempty : reordered ≠ [] := fun empty =>
      nonempty (List.nil_perm.mp (empty ▸ perm))
    obtain ⟨other, madeOther, otherTerms⟩ := exists_ofTerms reorderedNonempty
    rw [← otherTerms, ← sameTerms] at perm
    exact ⟨other, madeOther, specificity_eq_of_perm perm⟩
  · intro more moreNonempty
    obtain ⟨inner, madeInner, innerTerms⟩ := exists_ofTerms moreNonempty
    obtain ⟨whole, madeWhole, wholeTerms⟩ :=
      exists_ofTerms (List.append_ne_nil_of_left_ne_nil nonempty more)
    rw [← sameTerms, ← innerTerms] at wholeTerms
    have added := specificity_append wholeTerms
    refine ⟨inner, whole, madeInner, madeWhole, added, ?_⟩
    rw [added, Nat.min_comm]
    exact Specificity.toNat_add _ _

/-- With 2 ^ 24 variants, a term counts two more than the greatest word. -/
theorem crowded_text_is_most_specific :
    ∃ selector, ofTerms [⟨"Text", List.replicate (2 ^ 24) "hover"⟩] = .ok selector ∧
      selector.specificity.value.toNat = 2 ^ 32 - 1 := by
  obtain ⟨selector, made, weighs, _⟩ :=
    specificity_exact_up_to_greatest [⟨"Text", List.replicate (2 ^ 24) "hover"⟩]
      (List.cons_ne_nil _ _)
  -- The length is rewritten before anything can unfold the list.
  have total : (List.map (fun term : Term => 256 * term.variants.length + 1)
      [⟨"Text", List.replicate (2 ^ 24) "hover"⟩]).sum = 256 * 2 ^ 24 + 1 := by
    simp only [List.map_cons, List.map_nil, List.sum_cons, List.sum_nil, List.length_replicate,
      Nat.add_zero]
  refine ⟨selector, made, weighs.trans ?_⟩
  simp only [total]
  exact Nat.min_eq_left (by decide)

end Selector

end Cascade
