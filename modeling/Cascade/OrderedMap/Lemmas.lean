import Cascade.OrderedMap.Basic
set_option autoImplicit false

/-! Operations on ordered maps, seen through their lookups and through their keys. Main
statements: every operation keeps the keys distinct; an insertion and a removal change the lookup
of their own key only; a merge looks up its source only where the target has nothing. -/

namespace Cascade.OrderedMap

variable {κ α : Type} [DecidableEq κ]

/-! ### Lookups -/

theorem lookup_overwrite (key other : κ) (value : α) (entries : List (κ × α)) :
    lookup other (overwrite key value entries) =
      if key = other then some value else lookup other entries := by
  induction entries with
  | nil => rfl
  | cons entry rest ih =>
      obtain ⟨present, old⟩ := entry
      by_cases same : present = key
      · subst same
        by_cases here : present = other <;> simp [overwrite, lookup, here]
      · by_cases here : present = other
        · subst here
          simp [overwrite, lookup, same, Ne.symm same]
        · simp [overwrite, lookup, same, here, ih]

theorem lookup_append (key : κ) (front back : List (κ × α)) :
    lookup key (front ++ back) = (lookup key front).or (lookup key back) := by
  induction front with
  | nil => rfl
  | cons entry rest ih =>
      obtain ⟨present, value⟩ := entry
      by_cases same : present = key <;> simp [lookup, same, ih]

theorem lookup_isSome_iff (key : κ) (entries : List (κ × α)) :
    (lookup key entries).isSome = true ↔ key ∈ entries.map Prod.fst := by
  induction entries with
  | nil => simp [lookup]
  | cons entry rest ih =>
      obtain ⟨present, value⟩ := entry
      by_cases same : present = key
      · simp [lookup, same]
      · simp [lookup, same, Ne.symm same, ih]

theorem contains_iff_mem_keys (map : OrderedMap κ α) (key : κ) :
    map.contains key = true ↔ key ∈ map.keys :=
  lookup_isSome_iff key map.entries

theorem get?_eq_none_iff (map : OrderedMap κ α) (key : κ) :
    map.get? key = none ↔ key ∉ map.keys := by
  rw [← contains_iff_mem_keys, contains]
  cases map.get? key <;> simp

theorem mem_keys_iff_get? (map : OrderedMap κ α) (key : κ) :
    key ∈ map.keys ↔ ∃ value, map.get? key = some value := by
  rw [← contains_iff_mem_keys, contains, Option.isSome_iff_exists]

theorem get?_empty (key : κ) : (empty : OrderedMap κ α).get? key = none := rfl

theorem get?_insert (map : OrderedMap κ α) (key other : κ) (value : α) :
    (map.insert key value).get? other = if key = other then some value else map.get? other :=
  lookup_overwrite key other value map.entries

theorem get?_insert_self (map : OrderedMap κ α) (key : κ) (value : α) :
    (map.insert key value).get? key = some value := by
  rw [get?_insert, if_pos rfl]

theorem get?_insert_eq_some_iff {map : OrderedMap κ α} {key other : κ} {value found : α} :
    (map.insert key value).get? other = some found ↔
      (key = other ∧ value = found) ∨ (key ≠ other ∧ map.get? other = some found) := by
  rw [get?_insert]
  split
  · next same => simp [same]
  · next different => simp [different]

/-- What is found after an insertion was inserted, or it was there, no matter whether the map was
emptied before. -/
theorem new_or_old {map : OrderedMap κ α} {emptied : Prop} [Decidable emptied] {key other : κ}
    {value found : α}
    (held : ((if emptied then ∅ else map).insert key value).get? other = some found) :
    (key = other ∧ value = found) ∨ map.get? other = some found := by
  rcases get?_insert_eq_some_iff.mp held with new | ⟨_, old⟩
  · exact .inl new
  · split at old
    · cases old
    · exact .inr old

theorem get?_insertIfNew (map : OrderedMap κ α) (key other : κ) (value : α) :
    (map.insertIfNew key value).get? other =
      (map.get? other).or (if key = other then some value else none) := by
  unfold insertIfNew
  split
  · next present =>
      by_cases same : key = other
      · subst same
        obtain ⟨found, held⟩ := Option.isSome_iff_exists.mp present
        simp [held]
      · simp [same]
  · exact lookup_append other map.entries [(key, value)]

theorem get?_mergeAbsent (map source : OrderedMap κ α) (key : κ) :
    (map.mergeAbsent source).get? key = (map.get? key).or (source.get? key) := by
  obtain ⟨entries⟩ := source
  unfold mergeAbsent
  induction entries generalizing map with
  | nil => simp [get?, lookup]
  | cons entry rest ih =>
      obtain ⟨first, value⟩ := entry
      rw [List.foldl_cons, ih, get?_insertIfNew, Option.or_assoc]
      congr 1
      by_cases same : first = key <;> simp [get?, lookup, same]

omit [DecidableEq κ] in
theorem ne_of_absent {key : κ} {entries : List (κ × α)} (absent : key ∉ entries.map Prod.fst)
    {entry : κ × α} (present : entry ∈ entries) : entry.1 ≠ key := by
  intro same
  apply absent
  rw [← same]
  exact List.mem_map_of_mem present

theorem lookup_of_mem {key : κ} {value : α} {entries : List (κ × α)}
    (distinct : (entries.map Prod.fst).Nodup) (present : (key, value) ∈ entries) :
    lookup key entries = some value := by
  induction entries with
  | nil => cases present
  | cons entry rest ih =>
      obtain ⟨first, held⟩ := entry
      obtain ⟨notLater, distinctRest⟩ := List.nodup_cons.mp distinct
      rcases List.mem_cons.mp present with here | later
      · cases here
        rw [lookup, if_pos rfl]
      · rw [lookup, if_neg (ne_of_absent notLater later).symm]
        exact ih distinctRest later

theorem mem_of_lookup {key : κ} {value : α} {entries : List (κ × α)}
    (found : lookup key entries = some value) : (key, value) ∈ entries := by
  induction entries with
  | nil => cases found
  | cons entry rest ih =>
      obtain ⟨first, held⟩ := entry
      by_cases here : first = key
      · rw [lookup, if_pos here] at found
        cases found
        exact here ▸ List.mem_cons_self
      · rw [lookup, if_neg here] at found
        exact List.mem_cons_of_mem _ (ih found)

theorem values_eq_map {map : OrderedMap κ α} (distinct : map.KeysDistinct) (absent : α) :
    map.values = map.keys.map fun key => (map.get? key).getD absent := by
  rw [values, keys, List.map_map]
  apply List.map_congr_left
  intro entry present
  have found : map.get? entry.1 = some entry.2 := lookup_of_mem distinct present
  rw [Function.comp, found, Option.getD_some]

/-! ### Keys -/

theorem keys_overwrite (key : κ) (value : α) (entries : List (κ × α)) :
    (overwrite key value entries).map Prod.fst =
      if key ∈ entries.map Prod.fst then entries.map Prod.fst
      else entries.map Prod.fst ++ [key] := by
  induction entries with
  | nil => rfl
  | cons entry rest ih =>
      obtain ⟨present, old⟩ := entry
      by_cases same : present = key
      · subst same
        simp [overwrite]
      · simp only [overwrite, same, if_false, List.map_cons, ih, List.mem_cons, Ne.symm same,
          false_or]
        split <;> rfl

theorem keys_insert (map : OrderedMap κ α) (key : κ) (value : α) :
    (map.insert key value).keys = if key ∈ map.keys then map.keys else map.keys ++ [key] :=
  keys_overwrite key value map.entries

theorem size_insert (map : OrderedMap κ α) (key : κ) (value : α) :
    (map.insert key value).size = if map.contains key then map.size else map.size + 1 := by
  have counted : ∀ other : OrderedMap κ α, other.size = other.keys.length :=
    fun other => (List.length_map Prod.fst).symm
  rw [counted, counted, keys_insert]
  simp only [contains_iff_mem_keys]
  split
  · rfl
  · exact List.length_append

theorem keys_insertIfNew (map : OrderedMap κ α) (key : κ) (value : α) :
    (map.insertIfNew key value).keys = if key ∈ map.keys then map.keys else map.keys ++ [key] := by
  by_cases present : key ∈ map.keys
  · rw [insertIfNew, if_pos ((contains_iff_mem_keys map key).mpr present), if_pos present]
  · rw [insertIfNew, if_neg fun held => present ((contains_iff_mem_keys map key).mp held),
      if_neg present]
    exact List.map_append

theorem overwrite_of_absent {key : κ} (value : α) {entries : List (κ × α)}
    (absent : key ∉ entries.map Prod.fst) :
    overwrite key value entries = entries ++ [(key, value)] := by
  induction entries with
  | nil => rfl
  | cons entry rest ih =>
      obtain ⟨notHere, notLater⟩ := not_or.mp (mt List.mem_cons.mpr absent)
      rw [overwrite, if_neg (Ne.symm notHere), ih notLater, List.cons_append]

/-- A new entry goes to the end. -/
theorem insert_of_absent {map : OrderedMap κ α} {key : κ} (absent : key ∉ map.keys) (value : α) :
    map.insert key value = ⟨map.entries ++ [(key, value)]⟩ :=
  congrArg mk (overwrite_of_absent value absent)

theorem withhold_sublist (key : κ) (entries : List (κ × α)) :
    List.Sublist (withhold key entries) entries := by
  induction entries with
  | nil => exact List.Sublist.refl []
  | cons entry rest ih =>
      obtain ⟨present, value⟩ := entry
      by_cases same : present = key
      · simp [withhold, same]
      · simpa [withhold, same] using ih

/-! ### Distinct keys -/

omit [DecidableEq κ] in
theorem keysDistinct_empty : KeysDistinct (empty : OrderedMap κ α) := List.nodup_nil

private theorem nodup_extend {keys : List κ} (distinct : keys.Nodup) (key : κ) :
    (if key ∈ keys then keys else keys ++ [key]).Nodup := by
  split
  · exact distinct
  · next absent =>
      refine List.nodup_append.mpr ⟨distinct, List.nodup_cons.mpr ⟨List.not_mem_nil, .nil⟩, ?_⟩
      intro left inKeys right isKey same
      rw [List.mem_singleton.mp isKey] at same
      exact absent (same ▸ inKeys)

theorem KeysDistinct.insert {map : OrderedMap κ α} (distinct : map.KeysDistinct) (key : κ)
    (value : α) : (map.insert key value).KeysDistinct := by
  unfold KeysDistinct
  rw [keys_insert]
  exact nodup_extend distinct key

theorem KeysDistinct.insertIfNew {map : OrderedMap κ α} (distinct : map.KeysDistinct) (key : κ)
    (value : α) : (map.insertIfNew key value).KeysDistinct := by
  unfold KeysDistinct
  rw [keys_insertIfNew]
  exact nodup_extend distinct key

theorem KeysDistinct.mergeAbsent {map : OrderedMap κ α} (distinct : map.KeysDistinct)
    (source : OrderedMap κ α) : (map.mergeAbsent source).KeysDistinct := by
  obtain ⟨entries⟩ := source
  unfold OrderedMap.mergeAbsent
  induction entries generalizing map with
  | nil => exact distinct
  | cons entry rest ih => exact ih (distinct.insertIfNew entry.1 entry.2)

theorem KeysDistinct.erase {map : OrderedMap κ α} (distinct : map.KeysDistinct) (key : κ) :
    (map.erase key).KeysDistinct :=
  List.Nodup.sublist ((withhold_sublist key map.entries).map Prod.fst) distinct

theorem keysDistinct_ofList (pairs : List (κ × α)) : (ofList pairs).KeysDistinct := by
  suffices extended : ∀ map : OrderedMap κ α, map.KeysDistinct →
      (pairs.foldl (fun map pair => map.insert pair.1 pair.2) map).KeysDistinct from
    extended empty keysDistinct_empty
  intro map distinct
  induction pairs generalizing map with
  | nil => exact distinct
  | cons pair rest ih => exact ih _ (distinct.insert pair.1 pair.2)

/-! ### Entries of maps with distinct keys -/

theorem map_replace_of_absent {key : κ} (replacement : κ × α) {entries : List (κ × α)}
    (absent : ∀ entry ∈ entries, entry.1 ≠ key) :
    entries.map (fun entry => if entry.1 = key then replacement else entry) = entries := by
  calc entries.map (fun entry => if entry.1 = key then replacement else entry)
      = entries.map id := by
        apply List.map_congr_left
        intro entry present
        exact if_neg (absent entry present)
    _ = entries := List.map_id entries

theorem overwrite_eq (key : κ) (value : α) {entries : List (κ × α)}
    (distinct : (entries.map Prod.fst).Nodup) :
    overwrite key value entries =
      entries.map (fun entry => if entry.1 = key then (key, value) else entry) ++
        if key ∈ entries.map Prod.fst then [] else [(key, value)] := by
  induction entries with
  | nil => rfl
  | cons entry rest ih =>
      obtain ⟨present, old⟩ := entry
      obtain ⟨notLater, distinctRest⟩ := List.nodup_cons.mp distinct
      by_cases same : present = key
      · subst same
        have untouched := map_replace_of_absent (present, value) fun _ => ne_of_absent notLater
        simp [overwrite, untouched]
      · simp only [overwrite, same, if_false, ih distinctRest, List.map_cons, List.mem_cons,
          Ne.symm same, false_or, List.cons_append]

/-- The entry keeps its place, or else goes to the end. -/
theorem entries_insert {map : OrderedMap κ α} (distinct : map.KeysDistinct) (key : κ) (value : α) :
    (map.insert key value).entries =
      map.entries.map (fun entry => if entry.1 = key then (key, value) else entry) ++
        if key ∈ map.keys then [] else [(key, value)] :=
  overwrite_eq key value distinct

theorem withhold_eq_filter (key : κ) {entries : List (κ × α)}
    (distinct : (entries.map Prod.fst).Nodup) :
    withhold key entries = entries.filter fun entry => entry.1 ≠ key := by
  induction entries with
  | nil => rfl
  | cons entry rest ih =>
      obtain ⟨present, value⟩ := entry
      obtain ⟨notLater, distinctRest⟩ := List.nodup_cons.mp distinct
      by_cases same : present = key
      · subst same
        have untouched : rest.filter (fun entry => entry.1 ≠ present) = rest :=
          List.filter_eq_self.mpr fun entry later => by
            simpa using ne_of_absent notLater later
        rw [withhold, if_pos rfl, List.filter_cons_of_neg (by simp), untouched]
      · rw [withhold, if_neg same, ih distinctRest, List.filter_cons_of_pos (by simpa using same)]

/-- Only the entry itself goes; the others keep their order. -/
theorem entries_erase {map : OrderedMap κ α} (distinct : map.KeysDistinct) (key : κ) :
    (map.erase key).entries = map.entries.filter fun entry => entry.1 ≠ key :=
  withhold_eq_filter key distinct

theorem keys_erase {map : OrderedMap κ α} (distinct : map.KeysDistinct) (key : κ) :
    (map.erase key).keys = map.keys.filter (· ≠ key) := by
  rw [keys, entries_erase distinct, keys, List.filter_map]
  rfl

theorem lookup_filter (other : κ) (kept : κ → Bool) (entries : List (κ × α)) :
    lookup other (entries.filter fun entry => kept entry.1) =
      if kept other then lookup other entries else none := by
  induction entries with
  | nil => simp [lookup]
  | cons entry rest ih =>
      obtain ⟨present, value⟩ := entry
      by_cases same : present = other
      · subst same
        cases keeps : kept present <;> simp [lookup, keeps, ih]
      · cases keeps : kept present <;> simp [lookup, keeps, same, ih]

theorem get?_erase {map : OrderedMap κ α} (distinct : map.KeysDistinct) (key other : κ) :
    (map.erase key).get? other = if key = other then none else map.get? other := by
  have found := lookup_filter other (fun present => decide (present ≠ key)) map.entries
  rw [get?, entries_erase distinct, found]
  by_cases same : key = other
  · simp [same]
  · simp [same, Ne.symm same, get?]

/-- The absent entries come to the end, in the order of the source. -/
theorem entries_mergeAbsent_of_distinct (map : OrderedMap κ α) {source : OrderedMap κ α}
    (distinct : source.KeysDistinct) :
    (map.mergeAbsent source).entries =
      map.entries ++ source.entries.filter fun entry => entry.1 ∉ map.keys := by
  obtain ⟨entries⟩ := source
  unfold mergeAbsent
  induction entries generalizing map with
  | nil => exact (List.append_nil _).symm
  | cons entry rest ih =>
      obtain ⟨notLater, distinctRest⟩ := List.nodup_cons.mp distinct
      rw [List.foldl_cons, ih _ distinctRest, keys_insertIfNew]
      by_cases present : entry.1 ∈ map.keys
      · rw [insertIfNew, if_pos ((contains_iff_mem_keys map entry.1).mpr present), if_pos present,
          List.filter_cons_of_neg (by simpa using present)]
      · rw [insertIfNew, if_neg fun held => present ((contains_iff_mem_keys map entry.1).mp held),
          if_neg present, List.filter_cons_of_pos (by simpa using present), List.append_assoc,
          List.singleton_append]
        congr 2
        apply List.filter_congr
        intro later inRest
        simp [ne_of_absent notLater inRest]

theorem keys_mergeAbsent_of_distinct (map : OrderedMap κ α) {source : OrderedMap κ α}
    (distinct : source.KeysDistinct) :
    (map.mergeAbsent source).keys = map.keys ++ source.keys.filter (· ∉ map.keys) := by
  rw [keys, entries_mergeAbsent_of_distinct map distinct, List.map_append, keys, keys,
    List.filter_map]
  rfl

end Cascade.OrderedMap
