import Cascade.Proofs.Descent
import Cascade.Proofs.Insertions
import Cascade.Proofs.Weights
import Mathlib.Data.List.Permutation
set_option autoImplicit false

/-! More general selectors, from which terms and variants of another one were taken out. They match
whatever the other one matches, and weigh less. Main statement: the more general rule is not more
specific, and unless both are as specific as can be, it is visited after the other. -/

namespace Cascade

open List (SublistForall₂)

/-! ### Taking out terms and variants -/

/-- The same name, perhaps with fewer variants. -/
structure Term.Loosens (general special : Term) : Prop where
  name_eq : general.name = special.name
  variants : general.variants.Sublist special.variants

/-- Terms that are not the anchor may be missing, and so may variants of any term. -/
structure Selector.Loosens (general special : Selector) : Prop where
  anchor : general.anchor.Loosens special.anchor
  ancestors : SublistForall₂ Term.Loosens general.ancestors special.ancestors

namespace Term

variable {general special : Term}

theorem Describes.of_loosens {node : Context.Node} (describes : special.Describes node)
    (loosens : general.Loosens special) : general.Describes node :=
  ⟨loosens.name_eq.trans describes.1,
    fun variant listed => describes.2 variant (loosens.variants.mem listed)⟩

theorem Loosens.eq_or_weight_lt (loosens : general.Loosens special) :
    general = special ∨ general.weight < special.weight := by
  obtain ⟨sameName, fewer⟩ := loosens
  rcases Nat.lt_or_eq_of_le fewer.length_le with shorter | sameLength
  · right
    unfold weight
    omega
  · left
    cases general
    cases special
    cases sameName
    cases fewer.eq_of_length sameLength
    rfl

theorem eq_or_sum_weight_lt {terms all : List Term} (loosen : SublistForall₂ Loosens terms all) :
    terms = all ∨ (terms.map weight).sum < (all.map weight).sum := by
  induction loosen with
  | @nil all =>
      cases all with
      | nil => exact .inl rfl
      | cons first rest =>
          right
          rw [List.map_nil, List.sum_nil, List.map_cons, List.sum_cons, weight]
          omega
  | cons loosens _ ih =>
      simp only [List.map_cons, List.sum_cons]
      rcases loosens.eq_or_weight_lt with rfl | lighter
      · rcases ih with rfl | lighterRest
        · exact .inl rfl
        · exact .inr (Nat.add_lt_add_left lighterRest _)
      · right
        rcases ih with rfl | lighterRest
        · exact Nat.add_lt_add_right lighter _
        · exact Nat.add_lt_add lighter lighterRest
  | cons_right _ ih =>
      right
      rw [List.map_cons, List.sum_cons]
      rcases ih with rfl | lighter
      · rw [weight]
        omega
      · exact Nat.lt_add_left _ lighter

end Term

namespace Selector.Loosens

variable {general special : Selector}

theorem name_eq (loosens : general.Loosens special) : general.name = special.name :=
  loosens.anchor.name_eq

theorem matches_of_matches (loosens : general.Loosens special) {context : Context}
    (matched : special.matches context = true) : general.matches context = true := by
  rw [matches_iff_sublistForall₂] at matched ⊢
  refine ⟨matched.1.of_loosens loosens.anchor, ?_⟩
  exact sublistForall₂_trans (fun _ _ _ less describes => describes.of_loosens less)
    loosens.ancestors matched.2

theorem eq_or_weight_lt (loosens : general.Loosens special) :
    general = special ∨ general.weight < special.weight := by
  obtain ⟨ancestors, anchor⟩ := general
  obtain ⟨allAncestors, fullAnchor⟩ := special
  obtain ⟨lessAnchor, lessAncestors⟩ := loosens
  have split : ∀ (terms : List Term) (term : Term),
      weight ⟨terms, term⟩ = (terms.map Term.weight).sum + term.weight := by
    intro terms term
    rw [weight, Selector.terms, List.map_append, List.sum_append, List.map_singleton,
      List.sum_singleton]
  rw [split, split]
  rcases Term.eq_or_sum_weight_lt lessAncestors with rfl | lighter
  · rcases lessAnchor.eq_or_weight_lt with rfl | lighterAnchor
    · exact .inl rfl
    · exact .inr (Nat.add_lt_add_left lighterAnchor _)
  · right
    rcases lessAnchor.eq_or_weight_lt with rfl | lighterAnchor
    · exact Nat.add_lt_add_right lighter _
    · exact Nat.add_lt_add lighter lighterAnchor

theorem specificity_le (loosens : general.Loosens special) :
    general.specificity ≤ special.specificity := by
  rw [Specificity.le_iff, toNat_specificity, toNat_specificity]
  rcases loosens.eq_or_weight_lt with rfl | lighter
  · exact Nat.le_refl _
  · omega

/-- Only where the greatest word is reached may two different selectors come out alike. -/
theorem specificity_lt (loosens : general.Loosens special) (different : general ≠ special)
    (below : general.specificity.value < 0xffffffff) :
    general.specificity < special.specificity := by
  have lighter := loosens.eq_or_weight_lt.resolve_left different
  have stopsLater : general.specificity.value.toNat < 0xffffffff := below
  rw [Specificity.lt_iff, toNat_specificity, toNat_specificity]
  rw [toNat_specificity] at stopsLater
  omega

end Selector.Loosens

/-! ### Places in a bucket -/

/-- The bucket has both rules, and the one is visited before the other. -/
structure Bucket.Precedes (bucket : List Rule) (rule other : Rule) : Prop where
  mem : rule ∈ bucket
  mem_other : other ∈ bucket
  before : ∀ place later : Nat,
    bucket[place]? = some rule → bucket[later]? = some other → place < later

theorem Bucket.lt_of_outranks {bucket : List Rule} {rule other : Rule} {place later : Nat}
    (sorted : bucket.Pairwise fun first second => first.mayPrecede second = true)
    (outranks : rule.outranks other = true) (here : bucket[place]? = some rule)
    (there : bucket[later]? = some other) : place < later := by
  have mayNot : other.mayPrecede rule = false := by rw [Rule.mayPrecede_eq, outranks, Bool.not_true]
  obtain ⟨inside, rfl⟩ := List.getElem?_eq_some_iff.mp here
  obtain ⟨otherInside, rfl⟩ := List.getElem?_eq_some_iff.mp there
  rcases Nat.lt_trichotomy place later with before | same | behind
  · exact before
  · subst same
    have reflexive := Rule.mayPrecede_total bucket[place] bucket[place]
    rw [Bool.or_self, mayNot] at reflexive
    cases reflexive
  · have wrong := List.pairwise_iff_getElem.mp sorted later place otherInside inside behind
    rw [mayNot] at wrong
    cases wrong

namespace RuleStore

theorem LeftBy.mem_rulesAnchoredAt {rules : List Rule} {store : RuleStore}
    (left : LeftBy rules store) {rule : Rule} (held : rule ∈ store.rules) :
    rule ∈ store.rulesAnchoredAt rule.key := by
  rw [left.bucket, mem_bucketOf]
  exact ⟨rfl, left.rules_perm.mem_iff.mp held⟩

theorem precedes_of_outranks (insertions : List Insertion) {rule other : Rule}
    (held : rule ∈ (ofInsertions insertions).rules)
    (otherHeld : other ∈ (ofInsertions insertions).rules) (sameKey : other.key = rule.key)
    (outranks : rule.outranks other = true) :
    Bucket.Precedes ((ofInsertions insertions).rulesAnchoredAt rule.key) rule other := by
  have left := leftBy_ofInsertions insertions
  have sorted := List.pairwise_mergeSort Rule.mayPrecede_trans Rule.mayPrecede_total
    (Slots.live (Slots.anchoredAt rule.key (Insertion.numbered insertions)))
  rw [← Bucket.sort_eq, ← bucketOf, ← left.bucket] at sorted
  refine ⟨left.mem_rulesAnchoredAt held, sameKey ▸ left.mem_rulesAnchoredAt otherHeld, ?_⟩
  intro place later
  exact Bucket.lt_of_outranks sorted outranks

end RuleStore

/-- A selector with fewer terms or variants matches at least the same contexts and is at most as
specific. Below the greatest specificity it is less specific, and then, among rules of one rank, its
rule is visited after that of the other. -/
theorem Selector.specificity_agrees_with_generality {general special : Selector}
    (loosens : general.Loosens special) :
    (∀ context, special.matches context = true → general.matches context = true) ∧
    general.specificity ≤ special.specificity ∧
    (general ≠ special → general.specificity.value < 0xffffffff →
      general.specificity < special.specificity) ∧
    ∀ (insertions : List Insertion) (rule other : Rule),
      rule ∈ (RuleStore.ofInsertions insertions).rules →
      other ∈ (RuleStore.ofInsertions insertions).rules →
      rule.selector = special → other.selector = general → rule.rank = other.rank →
      general.specificity < special.specificity →
        Bucket.Precedes ((RuleStore.ofInsertions insertions).rulesAnchoredAt special.name)
          rule other := by
  refine ⟨fun context => loosens.matches_of_matches, loosens.specificity_le,
    loosens.specificity_lt, ?_⟩
  rintro insertions rule other held otherHeld rfl rfl sameRank less
  have outranks : rule.outranks other = true := by
    rw [Rule.outranks_iff]
    exact .inr ⟨congrArg Rank.number sameRank, less⟩
  exact RuleStore.precedes_of_outranks insertions held otherHeld loosens.name_eq outranks

/-! Texts of active buttons, and the same in dark apps while they are hovered. -/

namespace Sample

def buttonText : Selector := ⟨[⟨"Button", ["active"]⟩], ⟨"Text", []⟩⟩

def hoveredText : Selector :=
  ⟨[⟨"App", ["dark"]⟩, ⟨"Button", ["active", "active"]⟩], ⟨"Text", ["hover"]⟩⟩

theorem buttonText_loosens : buttonText.Loosens hoveredText where
  anchor := ⟨rfl, by decide⟩
  ancestors := .cons_right (.cons ⟨rfl, by decide⟩ .nil)

def hovered : Context :=
  ⟨[(Context.Node.ofName "App").withVariant "dark",
    (Context.Node.ofName "Button").withVariant "active"],
    (Context.Node.ofName "Text").withVariant "hover"⟩

def buttonTexts : List Insertion := [⟨buttonText, {}, .default⟩, ⟨hoveredText, {}, .default⟩]

end Sample

namespace Selector

open Sample (buttonText hoveredText hovered buttonTexts)

/-- The rule for hovered texts goes first, although it came second. -/
theorem hovered_text_goes_first :
    buttonText.Loosens hoveredText ∧ buttonText ≠ hoveredText ∧
      hoveredText.matches hovered = true ∧ buttonText.matches hovered = true ∧
      buttonText.specificity.value < 0xffffffff ∧
      buttonText.specificity < hoveredText.specificity ∧
      Bucket.Precedes ((RuleStore.ofInsertions buttonTexts).rulesAnchoredAt "Text")
        ⟨⟨1⟩, hoveredText, .default, {}⟩ ⟨⟨0⟩, buttonText, .default, {}⟩ := by
  obtain ⟨matchesMore, _, less, precedes⟩ :=
    specificity_agrees_with_generality Sample.buttonText_loosens
  have matched : hoveredText.matches hovered = true := by decide
  have different : buttonText ≠ hoveredText := by decide
  have below : buttonText.specificity.value < 0xffffffff := by decide
  have rules : (RuleStore.ofInsertions buttonTexts).rules =
      [⟨⟨1⟩, hoveredText, .default, {}⟩, ⟨⟨0⟩, buttonText, .default, {}⟩] := by cbv
  have lower := less different below
  refine ⟨Sample.buttonText_loosens, different, matched, matchesMore hovered matched, below, lower,
    ?_⟩
  refine precedes buttonTexts ⟨⟨1⟩, hoveredText, .default, {}⟩ ⟨⟨0⟩, buttonText, .default, {}⟩ ?_ ?_
    rfl rfl rfl lower
  · rw [rules]
    exact List.mem_cons_self
  · rw [rules]
    exact List.mem_cons_of_mem _ List.mem_cons_self

end Selector

end Cascade
