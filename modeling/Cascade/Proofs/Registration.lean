import Cascade.Proofs.Visibility
set_option autoImplicit false

/-! In which order rules may be registered. The bucket of a rule and, but for ties, its place there
follow from the rule itself. Main statement: insertions may change their order as long as ties keep
theirs; then the buckets have the same rules up to ids, and every context resolves alike. -/

namespace Cascade

/-! ### Ties -/

/-- What decides on the bucket of a rule and on its place there. Rules of one standing are ties. -/
structure Standing where
  name : String
  rank : Rank
  specificity : Specificity
deriving DecidableEq

def Slot.standing (slot : Slot) : Standing := ⟨slot.name, slot.rank, slot.selector.specificity⟩

namespace Rule

theorem tied_iff (rule other : Rule) : StableSort.tied mayPrecede rule other = true ↔
    other.rank = rule.rank ∧ other.specificity = rule.specificity := by
  rw [StableSort.tied_iff, mayPrecede_iff, mayPrecede_iff]
  constructor
  · intro both
    have sameNumber : other.rank.number = rule.rank.number := by omega
    have sameWord : other.specificity.value.toNat = rule.specificity.value.toNat := by omega
    refine ⟨?_, congrArg Specificity.mk (UInt32.toNat.inj sameWord)⟩
    cases first : other.rank <;> cases second : rule.rank <;>
      simp [first, second, Rank.number] at sameNumber ⊢
  · rintro ⟨sameRank, sameSpecificity⟩
    rw [sameRank, sameSpecificity]
    exact ⟨.inr ⟨rfl, Nat.le_refl _⟩, .inr ⟨rfl, Nat.le_refl _⟩⟩

/-- Within the bucket of a name, ties are what has the standing of the rule. -/
theorem filter_tied_anchoredAt (rule : Rule) (name : String) (rules : List Rule) :
    (Slots.live (Slots.anchoredAt name rules)).filter (StableSort.tied mayPrecede rule) =
      Slots.live (rules.filter fun other =>
        other.slot.standing = ⟨name, rule.rank, rule.specificity⟩) := by
  have byStanding : StableSort.tied mayPrecede rule = fun other =>
      decide (other.slot.rank = rule.rank ∧
        other.slot.selector.specificity = rule.specificity) := by
    funext other
    rw [Bool.eq_iff_iff, tied_iff, decide_eq_true_iff]
    rfl
  rw [byStanding, Slots.filter_live _ fun slot =>
    decide (slot.rank = rule.rank ∧ slot.selector.specificity = rule.specificity),
    Slots.anchoredAt, List.filter_filter]
  congr 1
  apply List.filter_congr
  intro other _
  rw [Bool.eq_iff_iff, Bool.and_eq_true, decide_eq_true_iff, decide_eq_true_iff,
    decide_eq_true_iff, Slot.standing, Standing.mk.injEq]
  exact and_comm

/-! ### Rules without their ids -/

def insertion (rule : Rule) : Insertion := ⟨rule.selector, rule.payload, rule.rank⟩

def unnumbered (rule : Rule) : Rule := rule.insertion.toRule 0

end Rule

namespace Insertion

theorem map_unnumbered_numbered (insertions : List Insertion) :
    (numbered insertions).map Rule.unnumbered = insertions.map fun insertion =>
      insertion.toRule 0 := by
  calc (numbered insertions).map Rule.unnumbered
      = insertions.zipIdx.map ((fun insertion => insertion.toRule 0) ∘ Prod.fst) := by
        rw [numbered, List.map_map]
        rfl
    _ = (insertions.zipIdx.map Prod.fst).map fun insertion => insertion.toRule 0 := by
        rw [List.map_map]
    _ = insertions.map fun insertion => insertion.toRule 0 := by rw [List.zipIdx_map_fst]

/-- The insertions of one standing, in their order. -/
def ofStanding (standing : Standing) (insertions : List Insertion) : List Insertion :=
  insertions.filter fun insertion => insertion.slot.standing = standing

/-- The same insertions in perhaps another order, in which ties keep theirs. -/
def KeepsTies (left right : List Insertion) : Prop :=
  ∀ standing, ofStanding standing left = ofStanding standing right

/-- Neighbours that are no ties may change places. -/
theorem keepsTies_swap (front back : List Insertion) {first second : Insertion}
    (noTies : first.slot.standing ≠ second.slot.standing) :
    KeepsTies (front ++ first :: second :: back) (front ++ second :: first :: back) := by
  intro standing
  unfold ofStanding
  rw [List.filter_append, List.filter_append]
  congr 1
  by_cases isFirst : first.slot.standing = standing
  · have notSecond : second.slot.standing ≠ standing := fun isSecond =>
      noTies (isFirst.trans isSecond.symm)
    simp [isFirst, notSecond]
  · simp [List.filter_cons, isFirst]

theorem KeepsTies.perm {left right : List Insertion} (keeps : KeepsTies left right) :
    left.Perm right := by
  classical
  rw [List.perm_iff_count]
  intro insertion
  have counted : ∀ insertions, (ofStanding insertion.slot.standing insertions).count insertion =
      insertions.count insertion := fun _ => List.count_filter (decide_eq_true rfl)
  rw [← counted left, keeps, counted right]

end Insertion

/-! ### Stores -/

namespace RuleStore

/-- A bucket depends on the rules only through the order in which those of one standing come. -/
theorem bucketOf_congr {rules others : List Rule}
    (keeps : ∀ standing, rules.filter (fun rule => rule.slot.standing = standing) =
      others.filter fun rule => rule.slot.standing = standing) (name : String) :
    bucketOf rules name = bucketOf others name := by
  rw [bucketOf, bucketOf, Bucket.sort_eq, Bucket.sort_eq]
  apply StableSort.mergeSort_eq_of_classes Rule.mayPrecede_total Rule.mayPrecede_trans
  intro rule
  rw [Rule.filter_tied_anchoredAt, Rule.filter_tied_anchoredAt, keeps]

theorem insertions_rulesAnchoredAt (insertions : List Insertion) (name : String) :
    ((ofInsertions insertions).rulesAnchoredAt name).map Rule.insertion =
      (bucketOf (insertions.map fun insertion => insertion.toRule 0) name).map Rule.insertion := by
  have sameSlot : ∀ rule : Rule, rule.unnumbered.slot = rule.slot := fun _ => rfl
  rw [(leftBy_ofInsertions insertions).bucket, ← Insertion.map_unnumbered_numbered,
    ← map_bucketOf sameSlot, List.map_map]
  rfl

theorem showsAlike_of_insertions {store other : RuleStore}
    (same : ∀ name, (store.rulesAnchoredAt name).map Rule.insertion =
      (other.rulesAnchoredAt name).map Rule.insertion) (context : Context) :
    store.ShowsAlike other context := by
  have seen : ∀ (rules : List Rule) (context : Context),
      (rules.filter fun rule => rule.matches context).map Rule.payload =
        ((rules.map Rule.insertion).filter fun insertion =>
          insertion.selector.matches context).map Insertion.payload := by
    intro rules context
    rw [List.filter_map, List.map_map]
    rfl
  intro name
  rw [matching, matching, seen, seen, same]

/-- Rules may be registered in any order that keeps the order among ties, which are the rules of one
anchor name, one rank and one specificity. -/
theorem registration_order_matters_among_ties {left right : List Insertion}
    (keeps : Insertion.KeepsTies left right) :
    (∀ name, ((ofInsertions left).rulesAnchoredAt name).map Rule.insertion =
      ((ofInsertions right).rulesAnchoredAt name).map Rule.insertion) ∧
    ∀ limit context,
      (ofInsertions left).resolve limit context = (ofInsertions right).resolve limit context := by
  have sameBuckets : ∀ name, ((ofInsertions left).rulesAnchoredAt name).map Rule.insertion =
      ((ofInsertions right).rulesAnchoredAt name).map Rule.insertion := by
    intro name
    rw [insertions_rulesAnchoredAt, insertions_rulesAnchoredAt]
    congr 1
    apply bucketOf_congr
    intro standing
    rw [List.filter_map, List.filter_map]
    exact congrArg _ (keeps standing)
  exact ⟨sameBuckets, fun limit context =>
    resolve_congr (showsAlike_of_insertions sameBuckets context) limit⟩

/-- The font of dialogs may come before or after the general one, but not after its successor. -/
theorem fonts_in_either_order :
    let left := [Sample.text] ++ Sample.dialogFont "serif" :: Sample.font "sans" ::
      [Sample.dialogFont "mono"]
    let right := [Sample.text] ++ Sample.font "sans" :: Sample.dialogFont "serif" ::
      [Sample.dialogFont "mono"]
    Insertion.KeepsTies left right ∧
      ((ofInsertions left).rulesAnchoredAt "font").map Rule.id = [⟨3⟩, ⟨2⟩] ∧
      ((ofInsertions right).rulesAnchoredAt "font").map Rule.id = [⟨3⟩, ⟨1⟩] ∧
      (ofInsertions left).resolve 1 Sample.message =
        .ok ⟨none, some ⟨[("face", .str "mono")]⟩⟩ ∧
      (ofInsertions left).resolve 1 Sample.message =
        (ofInsertions right).resolve 1 Sample.message := by
  have noTies : (Sample.dialogFont "serif").slot.standing ≠ (Sample.font "sans").slot.standing := by
    decide
  have keeps := Insertion.keepsTies_swap [Sample.text] [Sample.dialogFont "mono"] noTies
  exact ⟨keeps, by cbv, by cbv, by cbv,
    (registration_order_matters_among_ties keeps).2 1 Sample.message⟩

end RuleStore

end Cascade
