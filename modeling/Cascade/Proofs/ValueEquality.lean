import Cascade.Proofs.ValueParts
import Mathlib.Data.List.Forall2
import Mathlib.Data.List.Perm.Subperm
set_option autoImplicit false

/-! Equality of values. Maps are compared from one side only, by their sizes and the entries of the
left one, each of which is looked for on the right. Main statement: where no map has a key twice
this is the same from either side, so that equality is symmetric and transitive, and all that
differs from itself has a NaN in it. -/

namespace Cascade

namespace Binary64

theorem beq_iff (left right : Binary64) : (left == right) = true ↔
    left.isNaN = false ∧ right.isNaN = false ∧
      (left = right ∨ left.isZero = true ∧ right.isZero = true) := by
  have sameBits : left.bits = right.bits ↔ left = right := by
    cases left
    cases right
    simp
  change left.same right = true ↔ _
  rw [same]
  simp only [Bool.and_eq_true, Bool.or_eq_true, Bool.not_eq_true', beq_iff_eq, sameBits, and_assoc]

theorem beq_comm (left right : Binary64) : (left == right) = (right == left) := by
  refine Bool.eq_iff_iff.mpr ?_
  rw [beq_iff, beq_iff, eq_comm, and_comm (a := left.isZero = true)]
  tauto

theorem beq_trans {left middle right : Binary64} (first : (left == middle) = true)
    (second : (middle == right) = true) : (left == right) = true := by
  obtain ⟨leftNumber, _, same⟩ := (beq_iff left middle).mp first
  obtain ⟨_, rightNumber, alsoSame⟩ := (beq_iff middle right).mp second
  refine (beq_iff left right).mpr ⟨leftNumber, rightNumber, ?_⟩
  rcases same with rfl | ⟨leftZero, middleZero⟩
  · exact alsoSame
  · rcases alsoSame with rfl | ⟨_, rightZero⟩
    · exact .inr ⟨leftZero, middleZero⟩
    · exact .inr ⟨leftZero, rightZero⟩

theorem beq_self_iff (number : Binary64) : (number == number) = true ↔ number.isNaN = false := by
  rw [beq_iff]
  tauto

end Binary64

namespace Value

/-! ### Equality of lists and maps, through their parts -/

theorem sameItems_iff (lefts rights : List Value) :
    sameItems lefts rights = true ↔
      List.Forall₂ (fun left right => left.same right = true) lefts rights := by
  induction lefts generalizing rights with
  | nil => cases rights <;> simp [sameItems]
  | cons left lefts ih => cases rights <;> simp [sameItems, ih]

theorem same_list_iff (lefts rights : List Value) :
    same (.list lefts) (.list rights) = true ↔
      List.Forall₂ (fun left right => left.same right = true) lefts rights := by
  rw [same, sameItems_iff]

theorem allFound_iff (entries : List (String × Value)) (fields : PropMap) :
    allFound entries fields = true ↔
      ∀ entry ∈ entries, ∃ found, fields.get? entry.1 = some found ∧
        found.same entry.2 = true := by
  induction entries with
  | nil => simp [allFound]
  | cons entry rest ih =>
      rw [allFound, Bool.and_eq_true, ih, List.forall_mem_cons]
      cases fields.get? entry.1 <;> simp

theorem same_map_iff (left right : PropMap) :
    same (.map left) (.map right) = true ↔ left.size = right.size ∧
      ∀ entry ∈ left.entries, ∃ found, right.get? entry.1 = some found ∧
        found.same entry.2 = true := by
  obtain ⟨entries⟩ := left
  rw [same, Bool.and_eq_true, beq_iff_eq, allFound_iff]
  rfl

theorem keys_perm_of_same {left right : PropMap} (distinct : left.KeysDistinct)
    (equal : same (.map left) (.map right) = true) : left.keys.Perm right.keys := by
  obtain ⟨sameSize, found⟩ := (same_map_iff left right).mp equal
  have inside : left.keys ⊆ right.keys := by
    intro key present
    obtain ⟨entry, listed, rfl⟩ := List.mem_map.mp present
    obtain ⟨value, held, _⟩ := found entry listed
    exact (OrderedMap.mem_keys_iff_get? right entry.1).mpr ⟨value, held⟩
  have sameLength : right.keys.length = left.keys.length := by
    rw [OrderedMap.keys, OrderedMap.keys, List.length_map, List.length_map]
    exact sameSize.symm
  exact (List.subperm_of_subset distinct inside).perm_of_length_le (Nat.le_of_eq sameLength)

/-- Maps are equal exactly if they have the same keys, bound to equal values. -/
theorem same_map_iff_of_distinct {left right : PropMap} (distinct : left.KeysDistinct)
    (distinctRight : right.KeysDistinct) :
    same (.map left) (.map right) = true ↔
      (∀ key, key ∈ left.keys ↔ key ∈ right.keys) ∧
        ∀ key value found, left.get? key = some value → right.get? key = some found →
          found.same value = true := by
  constructor
  · intro equal
    refine ⟨fun key => (keys_perm_of_same distinct equal).mem_iff, ?_⟩
    intro key value found held heldRight
    obtain ⟨bound, present, same⟩ :=
      ((same_map_iff left right).mp equal).2 (key, value) (OrderedMap.mem_of_lookup held)
    rw [heldRight] at present
    cases present
    exact same
  · rintro ⟨sameKeys, sameValues⟩
    have perm : left.keys.Perm right.keys :=
      (List.perm_ext_iff_of_nodup distinct distinctRight).mpr sameKeys
    refine (same_map_iff left right).mpr ⟨?_, ?_⟩
    · have sameLength := perm.length_eq
      rw [OrderedMap.keys, OrderedMap.keys, List.length_map, List.length_map] at sameLength
      exact sameLength
    · intro entry listed
      have held : left.get? entry.1 = some entry.2 := OrderedMap.lookup_of_mem distinct listed
      have present := (sameKeys entry.1).mp (List.mem_map_of_mem listed)
      obtain ⟨found, heldRight⟩ := (OrderedMap.mem_keys_iff_get? right entry.1).mp present
      exact ⟨found, heldRight, sameValues entry.1 entry.2 found held heldRight⟩

/-! ### The shapes of equal values -/

/-- Two values of one kind, which are the same unless they are floating-point numbers, lists or
maps. -/
inductive Agrees : Value → Value → Prop
  | null : Agrees .null .null
  | bool (truth : Bool) : Agrees (.bool truth) (.bool truth)
  | int (number : Int64) : Agrees (.int number) (.int number)
  | float (left right : Binary64) : Agrees (.float left) (.float right)
  | str (text : String) : Agrees (.str text) (.str text)
  | list (lefts rights : List Value) : Agrees (.list lefts) (.list rights)
  | map (left right : PropMap) : Agrees (.map left) (.map right)

theorem agrees_of_same {left right : Value} (equal : left.same right = true) :
    Agrees left right := by
  unfold same at equal
  split at equal
  · exact eq_of_beq equal ▸ .bool _
  · exact eq_of_beq equal ▸ .int _
  · exact .float _ _
  · exact eq_of_beq equal ▸ .str _
  · exact .list _ _
  · exact .map _ _
  · exact .null
  · cases equal

/-! ### Lists and maps whose parts keep the laws -/

theorem sameItems_comm {lefts rights : List Value}
    (each : ∀ left ∈ lefts, ∀ right ∈ rights, left.same right = right.same left) :
    sameItems lefts rights = sameItems rights lefts := by
  induction lefts generalizing rights with
  | nil => cases rights <;> simp [sameItems]
  | cons left lefts ih =>
      cases rights with
      | nil => simp [sameItems]
      | cons right rights =>
          have first := each left List.mem_cons_self right List.mem_cons_self
          have others := ih fun item listed other alsoListed =>
            each item (List.mem_cons_of_mem _ listed) other (List.mem_cons_of_mem _ alsoListed)
          rw [sameItems, sameItems, first, others]

theorem same_list_trans {lefts middles rights : List Value}
    (each : ∀ left ∈ lefts, ∀ middle ∈ middles, ∀ right ∈ rights,
      left.same middle = true → middle.same right = true → left.same right = true)
    (first : same (.list lefts) (.list middles) = true)
    (second : same (.list middles) (.list rights) = true) :
    same (.list lefts) (.list rights) = true := by
  obtain ⟨sameLength, pointwise⟩ := List.forall₂_iff_get.mp ((same_list_iff lefts middles).mp first)
  obtain ⟨alsoSameLength, alsoPointwise⟩ :=
    List.forall₂_iff_get.mp ((same_list_iff middles rights).mp second)
  refine (same_list_iff lefts rights).mpr
    (List.forall₂_iff_get.mpr ⟨sameLength.trans alsoSameLength, ?_⟩)
  intro index inLeft inRight
  have inMiddle := sameLength ▸ inLeft
  exact each _ (List.get_mem _ _) _ (List.get_mem _ ⟨index, inMiddle⟩) _ (List.get_mem _ _)
    (pointwise index inLeft inMiddle) (alsoPointwise index inMiddle inRight)

theorem same_map_comm {left right : PropMap} (distinct : left.KeysDistinct)
    (distinctRight : right.KeysDistinct)
    (each : ∀ key value found, left.get? key = some value → right.get? key = some found →
      value.same found = found.same value) :
    same (.map left) (.map right) = same (.map right) (.map left) := by
  refine Bool.eq_iff_iff.mpr ?_
  rw [same_map_iff_of_distinct distinct distinctRight,
    same_map_iff_of_distinct distinctRight distinct]
  constructor
  · rintro ⟨sameKeys, sameValues⟩
    refine ⟨fun key => (sameKeys key).symm, fun key found value heldRight held => ?_⟩
    rw [each key value found held heldRight]
    exact sameValues key value found held heldRight
  · rintro ⟨sameKeys, sameValues⟩
    refine ⟨fun key => (sameKeys key).symm, fun key value found held heldRight => ?_⟩
    rw [← each key value found held heldRight]
    exact sameValues key found value heldRight held

theorem same_map_trans {left middle right : PropMap} (distinct : left.KeysDistinct)
    (distinctMiddle : middle.KeysDistinct) (distinctRight : right.KeysDistinct)
    (each : ∀ key value between found, left.get? key = some value →
      middle.get? key = some between → right.get? key = some found →
      between.same value = true → found.same between = true → found.same value = true)
    (first : same (.map left) (.map middle) = true)
    (second : same (.map middle) (.map right) = true) : same (.map left) (.map right) = true := by
  obtain ⟨sameKeys, sameValues⟩ := (same_map_iff_of_distinct distinct distinctMiddle).mp first
  obtain ⟨alsoSameKeys, alsoSameValues⟩ :=
    (same_map_iff_of_distinct distinctMiddle distinctRight).mp second
  refine (same_map_iff_of_distinct distinct distinctRight).mpr
    ⟨fun key => (sameKeys key).trans (alsoSameKeys key), ?_⟩
  intro key value found held heldRight
  have present := (OrderedMap.mem_keys_iff_get? left key).mpr ⟨value, held⟩
  obtain ⟨between, heldMiddle⟩ :=
    (OrderedMap.mem_keys_iff_get? middle key).mp ((sameKeys key).mp present)
  exact each key value between found held heldMiddle heldRight
    (sameValues key value between held heldMiddle)
    (alsoSameValues key between found heldMiddle heldRight)

/-! ### The laws -/

theorem same_float (left right : Binary64) :
    same (.float left) (.float right) = (left == right) := by
  rw [same]

theorem same_comm {left right : Value} (wellKeyed : left.WellKeyed)
    (wellKeyedRight : right.WellKeyed) : left.same right = right.same left := by
  induction left using byParts generalizing right with
  | null => cases right <;> simp [same]
  | bool truth => cases right <;> simp [same, Bool.beq_comm]
  | int number => cases right <;> simp [same, Bool.beq_comm]
  | float number =>
      cases right with
      | float other => rw [same_float, same_float, Binary64.beq_comm]
      | _ => simp [same]
  | str text => cases right <;> simp [same, Bool.beq_comm]
  | list items ih =>
      cases right with
      | list others =>
          rw [same, same]
          refine sameItems_comm fun item listed other alsoListed => ?_
          exact ih item listed (wellKeyed.item item listed) (wellKeyedRight.item other alsoListed)
      | _ => simp [same]
  | map fields ih =>
      cases right with
      | map others =>
          refine same_map_comm wellKeyed.distinct wellKeyedRight.distinct ?_
          intro key value found held heldRight
          exact ih (key, value) (OrderedMap.mem_of_lookup held) (wellKeyed.found held)
            (wellKeyedRight.found heldRight)
      | _ => simp [same]

theorem same_trans {left middle right : Value} (wellKeyed : left.WellKeyed)
    (wellKeyedMiddle : middle.WellKeyed) (wellKeyedRight : right.WellKeyed)
    (first : left.same middle = true) (second : middle.same right = true) :
    left.same right = true := by
  induction left using byParts generalizing middle right with
  | null =>
      cases agrees_of_same first with
      | null => exact second
  | bool truth =>
      cases agrees_of_same first with
      | bool => exact second
  | int number =>
      cases agrees_of_same first with
      | int => exact second
  | float number =>
      cases agrees_of_same first with
      | float =>
          cases agrees_of_same second with
          | float =>
              rw [same_float] at first second ⊢
              exact Binary64.beq_trans first second
  | str text =>
      cases agrees_of_same first with
      | str => exact second
  | list items ih =>
      cases agrees_of_same first with
      | list =>
          cases agrees_of_same second with
          | list =>
              refine same_list_trans (fun item listed between inMiddle other inRight => ?_)
                first second
              exact ih item listed (wellKeyed.item item listed)
                (wellKeyedMiddle.item between inMiddle) (wellKeyedRight.item other inRight)
  | map fields ih =>
      cases agrees_of_same first with
      | map =>
          cases agrees_of_same second with
          | map =>
              refine same_map_trans wellKeyed.distinct wellKeyedMiddle.distinct
                wellKeyedRight.distinct ?_ first second
              intro key value between found held heldMiddle heldRight
              have part := wellKeyed.found held
              have partMiddle := wellKeyedMiddle.found heldMiddle
              have partRight := wellKeyedRight.found heldRight
              -- Maps change the sides of their parts, and the induction is on those of the left.
              rw [same_comm partMiddle part, same_comm partRight partMiddle,
                same_comm partRight part]
              exact ih (key, value) (OrderedMap.mem_of_lookup held) part partMiddle partRight

/-- Only NaNs differ from themselves, and values that have one among their parts. -/
theorem same_self_iff {value : Value} (wellKeyed : value.WellKeyed) :
    value.same value = true ↔ ∀ number ∈ value.floats, number.isNaN = false := by
  induction value using byParts with
  | null => simp [same, floats]
  | bool truth => simp [same, floats]
  | int number => simp [same, floats]
  | float number =>
      rw [same_float, Binary64.beq_self_iff]
      simp [floats]
  | str text => simp [same, floats]
  | list items ih =>
      have each : same (.list items) (.list items) = true ↔
          ∀ item ∈ items, item.same item = true := by
        rw [same_list_iff, List.forall₂_same]
      rw [each]
      constructor
      · intro equal number occurs
        obtain ⟨item, listed, within⟩ := mem_floats_list.mp occurs
        exact (ih item listed (wellKeyed.item item listed)).mp (equal item listed) number within
      · intro numbers item listed
        refine (ih item listed (wellKeyed.item item listed)).mpr fun number within => ?_
        exact numbers number (mem_floats_list.mpr ⟨item, listed, within⟩)
  | map fields ih =>
      have each : same (.map fields) (.map fields) = true ↔
          ∀ entry ∈ fields.entries, entry.2.same entry.2 = true := by
        rw [same_map_iff, and_iff_right rfl]
        refine forall₂_congr fun entry listed => ?_
        have held : fields.get? entry.1 = some entry.2 :=
          OrderedMap.lookup_of_mem wellKeyed.distinct listed
        simp [held]
      rw [each]
      constructor
      · intro equal number occurs
        obtain ⟨entry, listed, within⟩ := mem_floats_map.mp occurs
        exact (ih entry listed (wellKeyed.entry entry listed)).mp (equal entry listed) number within
      · intro numbers entry listed
        refine (ih entry listed (wellKeyed.entry entry listed)).mpr fun number within => ?_
        exact numbers number (mem_floats_map.mpr ⟨entry, listed, within⟩)

theorem same_of_perm {map reordered : PropMap} (wellKeyed : WellKeyed (.map map))
    (numbers : ∀ number ∈ floats (.map map), number.isNaN = false)
    (perm : reordered.entries.Perm map.entries) : same (.map map) (.map reordered) = true := by
  have distinct := wellKeyed.distinct
  have permKeys : reordered.keys.Perm map.keys := perm.map Prod.fst
  refine (same_map_iff_of_distinct distinct (permKeys.nodup_iff.mpr distinct)).mpr
    ⟨fun key => permKeys.mem_iff.symm, ?_⟩
  intro key value found held heldReordered
  have listed := perm.mem_iff.mp (OrderedMap.mem_of_lookup heldReordered)
  have alsoHeld : map.get? key = some found := OrderedMap.lookup_of_mem distinct listed
  rw [held] at alsoHeld
  cases alsoHeld
  refine (same_self_iff (wellKeyed.found held)).mpr fun number within => ?_
  exact numbers number (mem_floats_map.mpr ⟨(key, value), listed, within⟩)

/-- Maps are compared like the values that hold them. -/
theorem same_maps (left right : PropMap) :
    (left == right) = (Value.map left == Value.map right) := by
  obtain ⟨entries⟩ := left
  change _ = same _ _
  rw [same]
  rfl

theorem differ_of_not_agrees {left right : Value} (apart : ¬Agrees left right) :
    (left == right) = false :=
  Bool.eq_false_iff.mpr fun equal => apart (agrees_of_same equal)

/-- Among values that the operations build, equality is symmetric and transitive, and a value equals
itself exactly if no NaN occurs in it. Maps, which are compared like the values that hold them, are
equal exactly if they have the same keys, bound to equal values, so that entries may change their
places. Floating-point numbers are equal if they are the same or both zero and no NaN, and never
equal to an integer. -/
theorem equality_ignores_order_of_entries :
    (∀ left right : Value, left.Built → right.Built → (left == right) = (right == left)) ∧
    (∀ left middle right : Value, left.Built → middle.Built → right.Built →
      (left == middle) = true → (middle == right) = true → (left == right) = true) ∧
    (∀ value : Value, value.Built →
      ((value == value) = true ↔ ∀ number ∈ value.floats, number.isNaN = false)) ∧
    (∀ left right : PropMap, (left == right) = (Value.map left == Value.map right)) ∧
    (∀ left right : PropMap, Built (.map left) → Built (.map right) →
      ((left == right) = true ↔ (∀ key, key ∈ left.keys ↔ key ∈ right.keys) ∧
        ∀ key value found, left.get? key = some value → right.get? key = some found →
          (value == found) = true)) ∧
    (∀ map reordered : PropMap, Built (.map map) →
      (∀ number ∈ floats (.map map), number.isNaN = false) →
      reordered.entries.Perm map.entries → (map == reordered) = true) ∧
    (∀ left right : Binary64, (Value.float left == Value.float right) = true ↔
      left.isNaN = false ∧ right.isNaN = false ∧
        (left = right ∨ left.isZero = true ∧ right.isZero = true)) ∧
    ∀ (number : Binary64) (other : Int64),
      (Value.float number == Value.int other) = false ∧
        (Value.int other == Value.float number) = false := by
  refine ⟨?_, ?_, ?_, same_maps, ?_, ?_, ?_, ?_⟩
  · intro left right built builtRight
    exact same_comm built.wellKeyed builtRight.wellKeyed
  · intro left middle right built builtMiddle builtRight
    exact same_trans built.wellKeyed builtMiddle.wellKeyed builtRight.wellKeyed
  · intro value built
    exact same_self_iff built.wellKeyed
  · intro left right built builtRight
    refine (Bool.eq_iff_iff.mp (same_maps left right)).trans ?_
    have distinct := built.wellKeyed.distinct
    have distinctRight := builtRight.wellKeyed.distinct
    refine (same_map_iff_of_distinct distinct distinctRight).trans ?_
    refine and_congr_right fun _ => forall₃_congr fun key value found => ?_
    refine imp_congr_right fun held => imp_congr_right fun heldRight => ?_
    exact Bool.eq_iff_iff.mp
      (same_comm (builtRight.wellKeyed.found heldRight) (built.wellKeyed.found held))
  · intro map reordered built numbers perm
    exact (same_maps map reordered).trans (same_of_perm built.wellKeyed numbers perm)
  · intro left right
    exact (Bool.eq_iff_iff.mp (same_float left right)).trans (Binary64.beq_iff left right)
  · intro number other
    exact ⟨differ_of_not_agrees nofun, differ_of_not_agrees nofun⟩

example : (Value.map ⟨[("x", .int 1), ("y", .map ⟨[("a", .null), ("b", .null)]⟩)]⟩ ==
    .map ⟨[("y", .map ⟨[("b", .null), ("a", .null)]⟩), ("x", .int 1)]⟩) = true := by cbv

end Value

end Cascade
