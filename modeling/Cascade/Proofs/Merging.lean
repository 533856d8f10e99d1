import Cascade.OrderedMap.Lemmas
import Cascade.Rule.Payload
set_option autoImplicit false

/-! Merging with the first write winning. However the merges are nested, the outcome is that of
one pass over all writes in order: every key keeps the value and the place of its first write. -/

namespace Cascade

namespace OrderedMap

variable {κ α : Type} [DecidableEq κ]

/-! ### Nested merges of maps -/

theorem contains_mergeAbsent (map source : OrderedMap κ α) (key : κ) :
    (map.mergeAbsent source).contains key = (map.contains key || source.contains key) := by
  unfold contains
  rw [get?_mergeAbsent]
  cases map.get? key <;> rfl

theorem insertIfNew_of_contains (map : OrderedMap κ α) (key : κ) (value : α)
    (present : map.contains key = true) : map.insertIfNew key value = map :=
  if_pos present

/-- A merge may be done before or after an entry is added to its source. -/
theorem mergeAbsent_insertIfNew (map source : OrderedMap κ α) (key : κ) (value : α) :
    map.mergeAbsent (source.insertIfNew key value) =
      (map.mergeAbsent source).insertIfNew key value := by
  by_cases present : source.contains key = true
  · rw [insertIfNew_of_contains source key value present, insertIfNew_of_contains]
    rw [contains_mergeAbsent, present, Bool.or_true]
  · rw [insertIfNew, if_neg present]
    unfold mergeAbsent
    rw [List.foldl_append]
    rfl

theorem mergeAbsent_assoc (first second third : OrderedMap κ α) :
    (first.mergeAbsent second).mergeAbsent third =
      first.mergeAbsent (second.mergeAbsent third) := by
  obtain ⟨entries⟩ := third
  induction entries generalizing second with
  | nil => rfl
  | cons entry rest ih =>
      have moved := mergeAbsent_insertIfNew first second entry.1 entry.2
      have continued := ih (second.insertIfNew entry.1 entry.2)
      rw [moved] at continued
      exact continued

theorem mergeAbsent_of_contains (map source : OrderedMap κ α)
    (present : ∀ key ∈ source.keys, map.contains key = true) : map.mergeAbsent source = map := by
  obtain ⟨entries⟩ := source
  induction entries with
  | nil => rfl
  | cons entry rest ih =>
      obtain ⟨here, later⟩ := List.forall_mem_cons.mp present
      have nothing := insertIfNew_of_contains map entry.1 entry.2 here
      have continued := ih later
      unfold mergeAbsent at continued ⊢
      rw [List.foldl_cons, nothing]
      exact continued

/-- A source that was merged before brings nothing, whatever was merged in between. -/
theorem mergeAbsent_again (first second third : OrderedMap κ α) :
    ((first.mergeAbsent second).mergeAbsent third).mergeAbsent second =
      (first.mergeAbsent second).mergeAbsent third := by
  apply mergeAbsent_of_contains
  intro key inSecond
  have held := (contains_iff_mem_keys second key).mpr inSecond
  rw [contains_mergeAbsent, contains_mergeAbsent, held, Bool.or_true, Bool.true_or]

/-! ### First writes -/

/-- Of several writes, in order, the first one of every key. -/
def firstWrites : List (κ × α) → List (κ × α)
  | [] => []
  | entry :: rest => entry :: (firstWrites rest).filter fun later => later.1 ≠ entry.1

theorem mem_keys_firstWrites (writes : List (κ × α)) (key : κ) :
    key ∈ (firstWrites writes).map Prod.fst ↔ key ∈ writes.map Prod.fst := by
  induction writes with
  | nil => rfl
  | cons entry rest ih =>
      by_cases same : key = entry.1
      · simp [firstWrites, same]
      · simp only [firstWrites, List.map_cons, List.mem_cons, same, false_or, ← ih, List.mem_map,
          List.mem_filter, decide_eq_true_eq]
        constructor
        · rintro ⟨later, ⟨inside, _other⟩, isKey⟩
          exact ⟨later, inside, isKey⟩
        · rintro ⟨later, inside, isKey⟩
          exact ⟨later, ⟨inside, isKey ▸ same⟩, isKey⟩

/-- One more write counts only if its key was not written before. -/
theorem firstWrites_concat (writes : List (κ × α)) (key : κ) (value : α) :
    firstWrites (writes ++ [(key, value)]) =
      if key ∈ writes.map Prod.fst then firstWrites writes
      else firstWrites writes ++ [(key, value)] := by
  induction writes with
  | nil => rfl
  | cons entry rest ih =>
      rw [List.cons_append, firstWrites, ih]
      by_cases same : key = entry.1
      · subst same
        by_cases later : entry.1 ∈ rest.map Prod.fst
        · simp [firstWrites, later]
        · simp [firstWrites, later, List.filter_append]
      · by_cases later : key ∈ rest.map Prod.fst
        · simp [firstWrites, later]
        · simp [firstWrites, later, same, List.filter_append]

theorem entries_insertIfNew {map : OrderedMap κ α} {writes : List (κ × α)}
    (written : map.entries = firstWrites writes) (key : κ) (value : α) :
    (map.insertIfNew key value).entries = firstWrites (writes ++ [(key, value)]) := by
  have present : map.contains key = true ↔ key ∈ writes.map Prod.fst := by
    rw [contains_iff_mem_keys, keys, written]
    exact mem_keys_firstWrites writes key
  rw [firstWrites_concat, ← written]
  by_cases before : key ∈ writes.map Prod.fst
  · rw [insertIfNew_of_contains map key value (present.mpr before), if_pos before]
  · rw [insertIfNew, if_neg (fun held => before (present.mp held)), if_neg before]

theorem entries_mergeAbsent {map : OrderedMap κ α} {writes : List (κ × α)}
    (written : map.entries = firstWrites writes) (source : OrderedMap κ α) :
    (map.mergeAbsent source).entries = firstWrites (writes ++ source.entries) := by
  obtain ⟨entries⟩ := source
  induction entries generalizing map writes with
  | nil =>
      rw [List.append_nil]
      exact written
  | cons entry rest ih =>
      have continued := ih (entries_insertIfNew written entry.1 entry.2)
      rw [List.append_assoc] at continued
      exact continued

end OrderedMap

namespace ResolvedPayload

open OrderedMap (firstWrites)

/-! ### Nested merges of payloads -/

theorem getD_mergeMap (target source : Option PropMap) :
    (mergeMap target source).getD ∅ = (target.getD ∅).mergeAbsent (source.getD ∅) := by
  cases source with
  | none => rfl
  | some added => rfl

theorem mergeMap_assoc (first second third : Option PropMap) :
    mergeMap (mergeMap first second) third = mergeMap first (mergeMap second third) := by
  cases third with
  | none => rfl
  | some added =>
      have target := getD_mergeMap first second
      simp only [mergeMap] at target ⊢
      rw [target, OrderedMap.mergeAbsent_assoc]

theorem mergeMap_again (first second third : Option PropMap) :
    mergeMap (mergeMap (mergeMap first second) third) second =
      mergeMap (mergeMap first second) third := by
  cases second with
  | none => rfl
  | some added =>
      cases third with
      | none => exact congrArg some (OrderedMap.mergeAbsent_again (first.getD ∅) added ∅)
      | some between =>
          exact congrArg some (OrderedMap.mergeAbsent_again (first.getD ∅) added between)

theorem mergeAbsent_assoc (first second third : ResolvedPayload) :
    (first.mergeAbsent second).mergeAbsent third =
      first.mergeAbsent (second.mergeAbsent third) := by
  unfold mergeAbsent
  rw [mergeMap_assoc, mergeMap_assoc]

theorem mergeAbsent_again (first second third : ResolvedPayload) :
    ((first.mergeAbsent second).mergeAbsent third).mergeAbsent second =
      (first.mergeAbsent second).mergeAbsent third := by
  unfold mergeAbsent
  rw [mergeMap_again, mergeMap_again]

def mergeAll (payload : ResolvedPayload) (weaker : List ResolvedPayload) : ResolvedPayload :=
  weaker.foldl mergeAbsent payload

theorem mergeAll_append (payload : ResolvedPayload) (front back : List ResolvedPayload) :
    payload.mergeAll (front ++ back) = (payload.mergeAll front).mergeAll back :=
  List.foldl_append

/-- Payloads that were merged among themselves first may as well be merged one by one. -/
theorem mergeAbsent_mergeAll (payload other : ResolvedPayload) (weaker : List ResolvedPayload) :
    payload.mergeAbsent (other.mergeAll weaker) = (payload.mergeAbsent other).mergeAll weaker := by
  induction weaker generalizing other with
  | nil => rfl
  | cons next rest ih =>
      have merged := ih (other.mergeAbsent next)
      rw [← mergeAbsent_assoc] at merged
      exact merged

theorem mergeAbsent_of_mem {payload other : ResolvedPayload} {weaker : List ResolvedPayload}
    (inside : other ∈ weaker) :
    (payload.mergeAll weaker).mergeAbsent other = payload.mergeAll weaker := by
  obtain ⟨front, back, rfl⟩ := List.append_of_mem inside
  -- All that comes behind the payload counts as one merge, the one in between.
  have behind : payload.mergeAll (front ++ other :: back) =
      ((payload.mergeAll front).mergeAbsent other).mergeAbsent (mergeAll ∅ back) := by
    rw [mergeAll_append, mergeAbsent_mergeAll]
    rfl
  rw [behind, mergeAbsent_again]

theorem mergeAll_of_subset {payload : ResolvedPayload} {weaker others : List ResolvedPayload}
    (among : others ⊆ weaker) :
    (payload.mergeAll weaker).mergeAll others = payload.mergeAll weaker := by
  induction others with
  | nil => rfl
  | cons other rest ih =>
      obtain ⟨inside, amongRest⟩ := List.cons_subset.mp among
      calc (payload.mergeAll weaker).mergeAll (other :: rest)
          = ((payload.mergeAll weaker).mergeAbsent other).mergeAll rest := rfl
        _ = (payload.mergeAll weaker).mergeAll rest := by rw [mergeAbsent_of_mem inside]
        _ = payload.mergeAll weaker := ih amongRest

/-! ### The flat form -/

/-- The writes of several maps, one map after the other. -/
def writes (maps : List (Option PropMap)) : List (String × Value) :=
  maps.flatMap fun map => (map.getD ∅).entries

/-- The map is there as soon as one of several is, and has the first write of every key. -/
structure Flattens (maps : List (Option PropMap)) (map : Option PropMap) : Prop where
  absent_iff : map = none ↔ ∀ part ∈ maps, part = none
  entries_eq : ∀ present, map = some present → present.entries = firstWrites (writes maps)

theorem flattens_nil : Flattens [] none where
  absent_iff := by simp
  entries_eq := by
    intro present impossible
    cases impossible

private theorem writes_concat (maps : List (Option PropMap)) (last : Option PropMap) :
    writes (maps ++ [last]) = writes maps ++ (last.getD ∅).entries := by
  unfold writes
  rw [List.flatMap_append, List.flatMap_singleton]

private theorem writes_of_absent {maps : List (Option PropMap)}
    (absent : ∀ part ∈ maps, part = none) : writes maps = [] := by
  unfold writes
  rw [List.flatMap_eq_nil_iff]
  intro part inside
  rw [absent part inside]
  rfl

theorem Flattens.mergeMap {maps : List (Option PropMap)} {map : Option PropMap}
    (flat : Flattens maps map) (last : Option PropMap) :
    Flattens (maps ++ [last]) (ResolvedPayload.mergeMap map last) := by
  cases last with
  | none =>
      constructor
      · rw [ResolvedPayload.mergeMap, flat.absent_iff, List.forall_mem_append,
          List.forall_mem_singleton]
        exact (and_iff_left rfl).symm
      · intro present isPresent
        rw [writes_concat, flat.entries_eq present isPresent]
        exact congrArg firstWrites (List.append_nil _).symm
  | some added =>
      constructor
      · simp [ResolvedPayload.mergeMap]
      · intro present isPresent
        cases isPresent
        rw [writes_concat]
        apply OrderedMap.entries_mergeAbsent
        cases held : map with
        | none =>
            rw [writes_of_absent (flat.absent_iff.mp held)]
            rfl
        | some before => exact flat.entries_eq before held

theorem flattens_mergeAll (listing : List ResolvedPayload) :
    Flattens (listing.map props) ((∅ : ResolvedPayload).mergeAll listing).props ∧
      Flattens (listing.map style) ((∅ : ResolvedPayload).mergeAll listing).style := by
  suffices extended : ∀ before : List ResolvedPayload, ∀ merged : ResolvedPayload,
      Flattens (before.map props) merged.props → Flattens (before.map style) merged.style →
      Flattens ((before ++ listing).map props) (merged.mergeAll listing).props ∧
        Flattens ((before ++ listing).map style) (merged.mergeAll listing).style from
    extended [] ∅ flattens_nil flattens_nil
  induction listing with
  | nil =>
      intro before merged flatProps flatStyle
      rw [List.append_nil]
      exact ⟨flatProps, flatStyle⟩
  | cons next rest ih =>
      intro before merged flatProps flatStyle
      have continued := ih (before ++ [next]) (merged.mergeAbsent next)
        (by rw [List.map_append]; exact flatProps.mergeMap next.props)
        (by rw [List.map_append]; exact flatStyle.mergeMap next.style)
      rw [List.append_assoc] at continued
      exact continued

end ResolvedPayload

end Cascade
