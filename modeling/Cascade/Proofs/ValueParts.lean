import Cascade.OrderedMap.Lemmas
import Cascade.Value.Basic
import Mathlib.Data.List.Induction
set_option autoImplicit false

/-! Values by their parts: the items of a list, and what the keys of a map are bound to. Main
statement: the values that the operations build are those in which no map has a key twice. -/

namespace Cascade

namespace OrderedMap

variable {κ α : Type} [DecidableEq κ]

/-! ### Entries after an operation -/

theorem mem_entries_insert {map : OrderedMap κ α} {key : κ} {value : α} {entry : κ × α}
    (present : entry ∈ (map.insert key value).entries) :
    entry = (key, value) ∨ entry ∈ map.entries := by
  obtain ⟨entries⟩ := map
  simp only [insert] at present ⊢
  induction entries with
  | nil => exact .inl (List.mem_singleton.mp present)
  | cons first rest ih =>
      obtain ⟨other, old⟩ := first
      rw [overwrite] at present
      split at present
      · next same =>
          rcases List.mem_cons.mp present with here | later
          · exact .inl (same ▸ here)
          · exact .inr (List.mem_cons_of_mem _ later)
      · rcases List.mem_cons.mp present with here | later
        · exact .inr (List.mem_cons.mpr (.inl here))
        · exact (ih later).imp_right (List.mem_cons_of_mem _)

theorem mem_entries_insertIfNew {map : OrderedMap κ α} {key : κ} {value : α} {entry : κ × α}
    (present : entry ∈ (map.insertIfNew key value).entries) :
    entry = (key, value) ∨ entry ∈ map.entries := by
  rw [insertIfNew] at present
  split at present
  · exact .inr present
  · rcases List.mem_append.mp present with old | new
    · exact .inr old
    · exact .inl (List.mem_singleton.mp new)

theorem mem_entries_mergeAbsent {map source : OrderedMap κ α} {entry : κ × α}
    (present : entry ∈ (map.mergeAbsent source).entries) :
    entry ∈ map.entries ∨ entry ∈ source.entries := by
  obtain ⟨entries⟩ := source
  unfold mergeAbsent at present
  induction entries generalizing map with
  | nil => exact .inl present
  | cons first rest ih =>
      rcases ih present with old | later
      · rcases mem_entries_insertIfNew old with rfl | older
        · exact .inr List.mem_cons_self
        · exact .inl older
      · exact .inr (List.mem_cons_of_mem _ later)

theorem mem_entries_erase {map : OrderedMap κ α} {key : κ} {entry : κ × α}
    (present : entry ∈ (map.erase key).entries) : entry ∈ map.entries :=
  (withhold_sublist key map.entries).subset present

/-- Distinct keys are inserted in their order. -/
theorem ofList_entries {map : OrderedMap κ α} (distinct : map.KeysDistinct) :
    ofList map.entries = map := by
  obtain ⟨entries⟩ := map
  induction entries using List.reverseRecOn with
  | nil => rfl
  | append_singleton entries last ih =>
      have keys : (entries ++ [last]).map Prod.fst = entries.map Prod.fst ++ [last.1] :=
        List.map_append
      rw [KeysDistinct, OrderedMap.keys, keys] at distinct
      obtain ⟨distinctBefore, _, apart⟩ := List.nodup_append.mp distinct
      have absent : last.1 ∉ entries.map Prod.fst :=
        fun inside => apart _ inside _ (List.mem_singleton_self _) rfl
      have before : ofList entries = ⟨entries⟩ := ih distinctBefore
      calc ofList (entries ++ [last]) = (ofList entries).insert last.1 last.2 := by
            rw [ofList, List.foldl_append]
            rfl
        _ = ⟨entries ++ [last]⟩ := by rw [before]; exact insert_of_absent absent _

end OrderedMap

namespace Value

/-! ### Induction -/

/-- What holds of every value without parts, and of each other value if it holds of its parts, holds
of all values. -/
@[elab_as_elim]
theorem byParts {motive : Value → Prop} (null : motive .null) (bool : ∀ truth, motive (.bool truth))
    (int : ∀ number, motive (.int number)) (float : ∀ number, motive (.float number))
    (str : ∀ text, motive (.str text))
    (list : ∀ items, (∀ item ∈ items, motive item) → motive (.list items))
    (map : ∀ fields : PropMap, (∀ entry ∈ fields.entries, motive entry.2) → motive (.map fields))
    (value : Value) : motive value :=
  @Value.rec motive (fun items => ∀ item ∈ items, motive item)
    (fun fields => ∀ entry ∈ fields.entries, motive entry.2)
    (fun entries => ∀ entry ∈ entries, motive entry.2) (fun entry => motive entry.2)
    bool int float str list map null
    (List.forall_mem_nil _) (fun _ _ first rest => List.forall_mem_cons.mpr ⟨first, rest⟩)
    (fun _ each => each)
    (List.forall_mem_nil _) (fun _ _ first rest => List.forall_mem_cons.mpr ⟨first, rest⟩)
    (fun _ _ bound => bound) value

/-! ### Values that the operations build -/

/-- Values come about from the scalars, from lists of values, and from maps by operations on
maps. -/
inductive Built : Value → Prop
  | null : Built .null
  | bool (truth : Bool) : Built (.bool truth)
  | int (number : Int64) : Built (.int number)
  | float (number : Binary64) : Built (.float number)
  | str (text : String) : Built (.str text)
  | list {items : List Value} (each : ∀ item ∈ items, Built item) : Built (.list items)
  | empty : Built (.map ∅)
  | insert {fields : PropMap} (built : Built (.map fields)) (key : String) {value : Value}
      (part : Built value) : Built (.map (fields.insert key value))
  | insertIfNew {fields : PropMap} (built : Built (.map fields)) (key : String) {value : Value}
      (part : Built value) : Built (.map (fields.insertIfNew key value))
  | mergeAbsent {fields source : PropMap} (built : Built (.map fields))
      (added : Built (.map source)) : Built (.map (fields.mergeAbsent source))
  | erase {fields : PropMap} (built : Built (.map fields)) (key : String) :
      Built (.map (fields.erase key))

/-- No map in the value has a key twice. -/
inductive WellKeyed : Value → Prop
  | null : WellKeyed .null
  | bool (truth : Bool) : WellKeyed (.bool truth)
  | int (number : Int64) : WellKeyed (.int number)
  | float (number : Binary64) : WellKeyed (.float number)
  | str (text : String) : WellKeyed (.str text)
  | list {items : List Value} (each : ∀ item ∈ items, WellKeyed item) : WellKeyed (.list items)
  | map {fields : PropMap} (distinct : fields.KeysDistinct)
      (each : ∀ entry ∈ fields.entries, WellKeyed entry.2) : WellKeyed (.map fields)

theorem WellKeyed.item {items : List Value} (wellKeyed : WellKeyed (.list items)) :
    ∀ item ∈ items, WellKeyed item := by
  cases wellKeyed with
  | list each => exact each

theorem WellKeyed.distinct {fields : PropMap} (wellKeyed : WellKeyed (.map fields)) :
    fields.KeysDistinct := by
  cases wellKeyed with
  | map distinct each => exact distinct

theorem WellKeyed.entry {fields : PropMap} (wellKeyed : WellKeyed (.map fields)) :
    ∀ entry ∈ fields.entries, WellKeyed entry.2 := by
  cases wellKeyed with
  | map distinct each => exact each

theorem WellKeyed.found {fields : PropMap} (wellKeyed : WellKeyed (.map fields)) {key : String}
    {value : Value} (held : fields.get? key = some value) : WellKeyed value :=
  wellKeyed.entry (key, value) (OrderedMap.mem_of_lookup held)

theorem Built.wellKeyed {value : Value} (built : Built value) : WellKeyed value := by
  induction built with
  | null => exact .null
  | bool truth => exact .bool truth
  | int number => exact .int number
  | float number => exact .float number
  | str text => exact .str text
  | list _ ih => exact .list ih
  | empty => exact .map OrderedMap.keysDistinct_empty (List.forall_mem_nil _)
  | insert _ key _ before part =>
      refine .map (before.distinct.insert key _) fun entry present => ?_
      rcases OrderedMap.mem_entries_insert present with rfl | old
      · exact part
      · exact before.entry entry old
  | insertIfNew _ key _ before part =>
      refine .map (before.distinct.insertIfNew key _) fun entry present => ?_
      rcases OrderedMap.mem_entries_insertIfNew present with rfl | old
      · exact part
      · exact before.entry entry old
  | mergeAbsent _ _ before added =>
      refine .map (before.distinct.mergeAbsent _) fun entry present => ?_
      rcases OrderedMap.mem_entries_mergeAbsent present with old | new
      · exact before.entry entry old
      · exact added.entry entry new
  | erase _ key before =>
      refine .map (before.distinct.erase key) fun entry present => ?_
      exact before.entry entry (OrderedMap.mem_entries_erase present)

theorem built_ofList {entries : List (String × Value)}
    (each : ∀ entry ∈ entries, Built entry.2) : Built (.map (.ofList entries)) := by
  induction entries using List.reverseRecOn with
  | nil => exact .empty
  | append_singleton entries last ih =>
      rw [OrderedMap.ofList, List.foldl_append]
      obtain ⟨eachBefore, eachLast⟩ := List.forall_mem_append.mp each
      exact .insert (ih eachBefore) last.1 (eachLast last (List.mem_singleton_self last))

theorem WellKeyed.built {value : Value} (wellKeyed : WellKeyed value) : Built value := by
  induction wellKeyed with
  | null => exact .null
  | bool truth => exact .bool truth
  | int number => exact .int number
  | float number => exact .float number
  | str text => exact .str text
  | list _ ih => exact .list ih
  | map distinct _ ih =>
      rw [← OrderedMap.ofList_entries distinct]
      exact built_ofList ih

theorem built_iff_wellKeyed (value : Value) : Built value ↔ WellKeyed value :=
  ⟨Built.wellKeyed, WellKeyed.built⟩

/-! ### Floating-point numbers -/

mutual

/-- The floating-point numbers that occur in a value. -/
def floats : Value → List Binary64
  | .null => []
  | .bool _ => []
  | .int _ => []
  | .float number => [number]
  | .str _ => []
  | .list items => floatsOfItems items
  | .map ⟨entries⟩ => floatsOfEntries entries

def floatsOfItems : List Value → List Binary64
  | [] => []
  | item :: rest => floats item ++ floatsOfItems rest

def floatsOfEntries : List (String × Value) → List Binary64
  | [] => []
  | (_, value) :: rest => floats value ++ floatsOfEntries rest

end

theorem floats_list (items : List Value) : floats (.list items) = items.flatMap floats := by
  rw [floats]
  induction items with
  | nil => rfl
  | cons item rest ih => rw [floatsOfItems, ih, List.flatMap_cons]

theorem floats_map (fields : PropMap) :
    floats (.map fields) = fields.entries.flatMap fun entry => floats entry.2 := by
  obtain ⟨entries⟩ := fields
  rw [floats]
  induction entries with
  | nil => rfl
  | cons entry rest ih => rw [floatsOfEntries, ih, List.flatMap_cons]

theorem mem_floats_list {items : List Value} {number : Binary64} :
    number ∈ floats (.list items) ↔ ∃ item ∈ items, number ∈ floats item := by
  rw [floats_list, List.mem_flatMap]

theorem mem_floats_map {fields : PropMap} {number : Binary64} :
    number ∈ floats (.map fields) ↔ ∃ entry ∈ fields.entries, number ∈ floats entry.2 := by
  rw [floats_map, List.mem_flatMap]

/-! ### Nesting -/

mutual

/-- How deep lists and maps nest. -/
def nesting : Value → Nat
  | .null => 0
  | .bool _ => 0
  | .int _ => 0
  | .float _ => 0
  | .str _ => 0
  | .list items => nestingOfItems items + 1
  | .map ⟨entries⟩ => nestingOfEntries entries + 1

def nestingOfItems : List Value → Nat
  | [] => 0
  | item :: rest => max (nesting item) (nestingOfItems rest)

def nestingOfEntries : List (String × Value) → Nat
  | [] => 0
  | (_, value) :: rest => max (nesting value) (nestingOfEntries rest)

end

theorem nesting_list_le_iff (items : List Value) (depth : Nat) :
    nesting (.list items) ≤ depth + 1 ↔ ∀ item ∈ items, nesting item ≤ depth := by
  rw [nesting, Nat.add_le_add_iff_right]
  induction items with
  | nil => simp [nestingOfItems]
  | cons item rest ih => rw [nestingOfItems, Nat.max_le, ih, List.forall_mem_cons]

theorem nesting_map_le_iff (fields : PropMap) (depth : Nat) :
    nesting (.map fields) ≤ depth + 1 ↔ ∀ entry ∈ fields.entries, nesting entry.2 ≤ depth := by
  obtain ⟨entries⟩ := fields
  rw [nesting, Nat.add_le_add_iff_right]
  induction entries with
  | nil => simp [nestingOfEntries]
  | cons entry rest ih => rw [nestingOfEntries, Nat.max_le, ih, List.forall_mem_cons]

end Value

end Cascade
