import Cascade.Proofs.Changes
import Cascade.Proofs.Merging
set_option autoImplicit false

/-! The laws of merging. Merges are associative, and what was merged in before is absorbed; this
holds of the entries in their order, and an absent map is not taken for an empty one. -/

namespace Cascade

namespace OrderedMap

variable {κ α : Type} [DecidableEq κ]

theorem mergeAbsent_empty (map : OrderedMap κ α) : map.mergeAbsent ∅ = map := rfl

theorem mergeAbsent_self (map : OrderedMap κ α) : map.mergeAbsent map = map :=
  mergeAbsent_of_contains map map fun key => (contains_iff_mem_keys map key).mpr

theorem mergeAbsent_absorb (first second : OrderedMap κ α) :
    (first.mergeAbsent second).mergeAbsent first = first.mergeAbsent second := by
  apply mergeAbsent_of_contains
  intro key inFirst
  rw [contains_mergeAbsent, (contains_iff_mem_keys first key).mpr inFirst, Bool.true_or]

/-- Merged into the empty map, only the first entry of each key is taken. -/
theorem empty_mergeAbsent_iff (map : OrderedMap κ α) :
    (∅ : OrderedMap κ α).mergeAbsent map = map ↔ map.KeysDistinct := by
  constructor
  · intro same
    have distinct : ((∅ : OrderedMap κ α).mergeAbsent map).KeysDistinct :=
      keysDistinct_empty.mergeAbsent map
    rw [same] at distinct
    exact distinct
  · intro distinct
    have merged := entries_mergeAbsent_of_distinct (∅ : OrderedMap κ α) distinct
    have allAbsent : map.entries.filter (fun entry => entry.1 ∉ (∅ : OrderedMap κ α).keys) =
        map.entries :=
      List.filter_eq_self.mpr fun entry _ => decide_eq_true List.not_mem_nil
    rw [allAbsent] at merged
    calc (∅ : OrderedMap κ α).mergeAbsent map
        = ⟨((∅ : OrderedMap κ α).mergeAbsent map).entries⟩ := rfl
      _ = map := by rw [merged]; rfl

end OrderedMap

namespace ResolvedPayload

theorem mergeMap_self (map : Option PropMap) : mergeMap map map = map := by
  cases map with
  | none => rfl
  | some present => exact congrArg some (OrderedMap.mergeAbsent_self present)

theorem mergeMap_absorb (first second : Option PropMap) :
    mergeMap (mergeMap first second) first = mergeMap first second := by
  cases first with
  | none => rfl
  | some present =>
      cases second with
      | none => exact congrArg some (OrderedMap.mergeAbsent_self present)
      | some added => exact congrArg some (OrderedMap.mergeAbsent_absorb present added)

theorem mergeMap_none_iff (map : Option PropMap) :
    mergeMap none map = map ↔ ∀ present, map = some present → present.KeysDistinct := by
  cases map with
  | none => simp [mergeMap]
  | some present =>
      rw [mergeMap, Option.getD_none, Option.some_inj, OrderedMap.empty_mergeAbsent_iff]
      simp

/-- No map of the payload has a key twice. -/
structure WellKeyed (payload : ResolvedPayload) : Prop where
  props : ∀ map, payload.props = some map → map.KeysDistinct
  style : ∀ map, payload.style = some map → map.KeysDistinct

theorem empty_mergeAbsent_iff (payload : ResolvedPayload) :
    (∅ : ResolvedPayload).mergeAbsent payload = payload ↔ payload.WellKeyed := by
  obtain ⟨props, style⟩ := payload
  change ResolvedPayload.mk (mergeMap none props) (mergeMap none style) = ⟨props, style⟩ ↔ _
  rw [mk.injEq, mergeMap_none_iff, mergeMap_none_iff]
  exact ⟨fun ⟨props, style⟩ => ⟨props, style⟩, fun ⟨props, style⟩ => ⟨props, style⟩⟩

theorem wellKeyed_of_changes (props style : Option (List (OrderedMap.Change String Value))) :
    WellKeyed ⟨props.map OrderedMap.run, style.map OrderedMap.run⟩ := by
  have distinct : ∀ (made : Option (List (OrderedMap.Change String Value))) (map : PropMap),
      made.map OrderedMap.run = some map → map.KeysDistinct := by
    intro made map same
    obtain ⟨changes, _, rfl⟩ := Option.map_eq_some_iff.mp same
    exact (OrderedMap.shows_run changes).distinct
  exact ⟨distinct props, distinct style⟩

/-- Maps, and payloads with them, form a left-regular band under merging: merges are associative, a
merge with oneself changes nothing, and so does a merge of what went in first. The empty map and the
payload without maps are neutral on the right, and on the left for all whose keys are distinct, as
they are in every map that changes make. -/
theorem merging_is_left_regular_band :
    ((∀ first second third : PropMap, (first.mergeAbsent second).mergeAbsent third =
        first.mergeAbsent (second.mergeAbsent third)) ∧
      (∀ map : PropMap, map.mergeAbsent map = map) ∧
      (∀ first second : PropMap,
        (first.mergeAbsent second).mergeAbsent first = first.mergeAbsent second) ∧
      (∀ map : PropMap, map.mergeAbsent ∅ = map) ∧
      (∀ map : PropMap, (∅ : PropMap).mergeAbsent map = map ↔ map.KeysDistinct) ∧
      ∀ changes : List (OrderedMap.Change String Value), (OrderedMap.run changes).KeysDistinct) ∧
    (∀ first second third : ResolvedPayload, (first.mergeAbsent second).mergeAbsent third =
      first.mergeAbsent (second.mergeAbsent third)) ∧
    (∀ payload : ResolvedPayload, payload.mergeAbsent payload = payload) ∧
    (∀ first second : ResolvedPayload,
      (first.mergeAbsent second).mergeAbsent first = first.mergeAbsent second) ∧
    (∀ payload : ResolvedPayload, payload.mergeAbsent ∅ = payload) ∧
    (∀ payload : ResolvedPayload,
      (∅ : ResolvedPayload).mergeAbsent payload = payload ↔ payload.WellKeyed) ∧
    ∀ props style : Option (List (OrderedMap.Change String Value)),
      WellKeyed ⟨props.map OrderedMap.run, style.map OrderedMap.run⟩ := by
  refine ⟨⟨OrderedMap.mergeAbsent_assoc, OrderedMap.mergeAbsent_self,
    OrderedMap.mergeAbsent_absorb, OrderedMap.mergeAbsent_empty, OrderedMap.empty_mergeAbsent_iff,
    fun changes => (OrderedMap.shows_run changes).distinct⟩, mergeAbsent_assoc, ?_, ?_,
    fun payload => rfl, empty_mergeAbsent_iff, wellKeyed_of_changes⟩
  · intro payload
    unfold mergeAbsent
    rw [mergeMap_self, mergeMap_self]
  · intro first second
    unfold mergeAbsent
    rw [mergeMap_absorb, mergeMap_absorb]

/-- A map that is there stays there, even if it is empty. -/
example : (mergeMap none (some ∅)).isSome = true ∧ mergeMap none none = none := by decide

end ResolvedPayload

end Cascade
