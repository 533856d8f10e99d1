import Cascade.Rule.Basic
import Mathlib.Data.List.Forall2
import Mathlib.Data.List.NodupEquivFin
set_option autoImplicit false

/-! Matching against ancestors. The matcher walks the ancestors once, from the inside out, and never
takes a choice back. Main statement: whenever the terms can be placed at ancestors in their order,
it finds places for them. -/

namespace Cascade

open List (Forall₂ SublistForall₂)

/-! ### Places in order -/

section Places

variable {α β : Type} {Fits : α → β → Prop} {items : List α} {slots : List β}

theorem exists_place_of_sublistForall₂ (fitted : SublistForall₂ Fits items slots) :
    ∃ place : Fin items.length → Fin slots.length,
      StrictMono place ∧ ∀ index, Fits (items.get index) (slots.get (place index)) := by
  obtain ⟨chosen, fits, inOrder⟩ := List.sublistForall₂_iff.mp fitted
  obtain ⟨embedding, same⟩ := List.sublist_iff_exists_fin_orderEmbedding_get_eq.mp inOrder
  obtain ⟨sameLength, pointwise⟩ := List.forall₂_iff_get.mp fits
  refine ⟨fun index => embedding (index.cast sameLength), ?_, ?_⟩
  · intro earlier later before
    exact embedding.strictMono before
  · intro index
    rw [← same]
    exact pointwise index.val index.isLt (sameLength ▸ index.isLt)

theorem sublistForall₂_of_place (place : Fin items.length → Fin slots.length)
    (increasing : StrictMono place)
    (fits : ∀ index, Fits (items.get index) (slots.get (place index))) :
    SublistForall₂ Fits items slots := by
  have sameLength := List.length_ofFn (f := fun index => slots.get (place index))
  refine List.sublistForall₂_iff.mpr ⟨List.ofFn fun index => slots.get (place index), ?_, ?_⟩
  · refine List.forall₂_iff_get.mpr ⟨sameLength.symm, ?_⟩
    intro number inItems inChosen
    rw [List.get_ofFn]
    exact fits ⟨number, inItems⟩
  · refine List.sublist_iff_exists_fin_orderEmbedding_get_eq.mpr ⟨OrderEmbedding.ofStrictMono
      (fun index => place (index.cast sameLength)) ?_, ?_⟩
    · intro earlier later before
      exact increasing before
    · intro index
      exact List.get_ofFn _ _

theorem sublistForall₂_reverse_iff :
    SublistForall₂ Fits items.reverse slots.reverse ↔ SublistForall₂ Fits items slots := by
  suffices reversed : ∀ {items : List α} {slots : List β},
      SublistForall₂ Fits items slots → SublistForall₂ Fits items.reverse slots.reverse by
    constructor
    · intro fitted
      have twice := reversed fitted
      rw [List.reverse_reverse, List.reverse_reverse] at twice
      exact twice
    · exact reversed
  intro items slots fitted
  obtain ⟨chosen, fits, inOrder⟩ := List.sublistForall₂_iff.mp fitted
  exact List.sublistForall₂_iff.mpr
    ⟨chosen.reverse, List.forall₂_reverse_iff.mpr fits, inOrder.reverse⟩

theorem sublistForall₂_tail {first : α} {rest : List α}
    (fitted : SublistForall₂ Fits (first :: rest) slots) : SublistForall₂ Fits rest slots := by
  generalize whole : first :: rest = all at fitted
  induction fitted with
  | nil => cases whole
  | cons _ continued _ =>
      cases whole
      exact .cons_right continued
  | cons_right _ ih => exact .cons_right (ih whole)

/-- Items with places at slots, which have places of their own, can be placed there themselves. -/
theorem sublistForall₂_trans {γ : Type} {Leads : β → γ → Prop} {Joint : α → γ → Prop}
    {ends : List γ} (joins : ∀ item slot last, Fits item slot → Leads slot last → Joint item last)
    (fitted : SublistForall₂ Fits items slots) (led : SublistForall₂ Leads slots ends) :
    SublistForall₂ Joint items ends := by
  obtain ⟨place, increasing, fits⟩ := exists_place_of_sublistForall₂ fitted
  obtain ⟨further, furtherIncreasing, leads⟩ := exists_place_of_sublistForall₂ led
  apply sublistForall₂_of_place (further ∘ place) (furtherIncreasing.comp increasing)
  intro index
  exact joins _ _ _ (fits index) (leads (place index))

end Places

/-! ### The walk -/

namespace Term

/-- The node has the name of the term and every variant that the term lists. -/
def Describes (term : Term) (node : Context.Node) : Prop :=
  term.name = node.name ∧ ∀ variant ∈ term.variants, variant ∈ node.variants.members

theorem matches_iff_describes (term : Term) (node : Context.Node) :
    term.matches node = true ↔ term.Describes node := by
  unfold Term.matches Describes Context.Node.hasVariant VariantSet.contains
  rw [Bool.and_eq_true, beq_iff_eq, List.all_eq_true]
  simp only [List.contains_iff_mem]

/-- A term that takes the first node it describes takes nothing from the terms behind it: in any
other arrangement they are placed further out. -/
theorem matchesInOrder_iff (terms : List Term) (nodes : List Context.Node) :
    matchesInOrder terms nodes = true ↔ SublistForall₂ Describes terms nodes := by
  induction nodes generalizing terms with
  | nil =>
      cases terms with
      | nil => exact ⟨fun _ => .nil, fun _ => rfl⟩
      | cons term pending =>
          constructor
          · intro impossible
            cases impossible
          · intro impossible
            cases impossible
  | cons node outside ih =>
      cases terms with
      | nil => exact ⟨fun _ => .nil, fun _ => rfl⟩
      | cons term pending =>
          by_cases taken : term.matches node = true
          · rw [matchesInOrder, if_pos taken, ih]
            constructor
            · exact .cons ((matches_iff_describes term node).mp taken)
            · intro placed
              cases placed with
              | cons _ continued => exact continued
              | cons_right skipped => exact sublistForall₂_tail skipped
          · rw [matchesInOrder, if_neg taken, ih]
            constructor
            · exact .cons_right
            · intro placed
              cases placed with
              | cons describes _ =>
                  exact absurd ((matches_iff_describes term node).mpr describes) taken
              | cons_right skipped => exact skipped

end Term

theorem Selector.matches_iff_sublistForall₂ (selector : Selector) (context : Context) :
    selector.matches context = true ↔ selector.anchor.Describes context.subject ∧
      SublistForall₂ Term.Describes selector.ancestors context.ancestors := by
  rw [Selector.matches, Bool.and_eq_true, Term.matches_iff_describes, Term.matchesInOrder_iff,
    sublistForall₂_reverse_iff]

/-- A selector matches a context exactly if the anchor describes the subject and the other terms can
be placed, in their order, at ancestors that they describe. -/
theorem Selector.matches_iff_exists_place (selector : Selector) (context : Context) :
    selector.matches context = true ↔
      selector.anchor.Describes context.subject ∧
        ∃ place : Fin selector.ancestors.length → Fin context.ancestors.length,
          StrictMono place ∧ ∀ index,
            (selector.ancestors.get index).Describes (context.ancestors.get (place index)) := by
  unfold Selector.matches
  rw [Bool.and_eq_true, Term.matches_iff_describes, Term.matchesInOrder_iff,
    sublistForall₂_reverse_iff]
  refine and_congr_right fun _ => ⟨exists_place_of_sublistForall₂, ?_⟩
  rintro ⟨place, increasing, fits⟩
  exact sublistForall₂_of_place place increasing fits

end Cascade
