import Cascade.Proofs.ValueParts
import Mathlib.Data.List.Dedup
set_option autoImplicit false

/-! Maps under changes. What a map shows can be told without its entries: by what each key is bound
to, and by the keys in the order in which they were added. Main statement: whatever the changes, the
map and this account of it show the same and answer the same. -/

namespace Cascade.OrderedMap

variable {κ α : Type}

inductive Change (κ α : Type) where
  | insert (key : κ) (value : α)
  | insertIfNew (key : κ) (value : α)
  /-- No key occurs twice in what is merged in, as in every map that changes make. -/
  | mergeAbsent (source : OrderedMap κ α) (distinct : source.KeysDistinct)
  | erase (key : κ)

inductive Change.Answer (α : Type) where
  /-- The value under the key before the change. -/
  | before (value? : Option α)
  | added (isNew : Bool)
  | done

variable [DecidableEq κ]

def perform (map : OrderedMap κ α) : Change κ α → Change.Answer α × OrderedMap κ α
  | .insert key value =>
      let (old, changed) := map.getThenInsert? key value
      (.before old, changed)
  | .insertIfNew key value =>
      let (present, changed) := map.containsThenInsertIfNew key value
      (.added !present, changed)
  | .mergeAbsent source _ => (.done, map.mergeAbsent source)
  | .erase key =>
      let (old, changed) := map.getThenErase? key
      (.before old, changed)

/-- The map that changes make of the empty one. -/
def run (changes : List (Change κ α)) : OrderedMap κ α :=
  changes.foldl (fun map change => (map.perform change).2) ∅

/-! ### Accounts -/

/-- A map without its entries. -/
structure Account (κ α : Type) where
  binding : κ → Option α
  /-- The keys in the order in which they were added, once for each time that a key was. -/
  additions : List κ

namespace Account

def start : Account κ α := ⟨fun _ => none, []⟩

/-- The keys that are bound to nothing. -/
def absent (account : Account κ α) (keys : List κ) : List κ :=
  keys.filter fun key => (account.binding key).isNone

def perform (account : Account κ α) : Change κ α → Change.Answer α × Account κ α
  | .insert key value =>
      (.before (account.binding key),
        ⟨fun other => if key = other then some value else account.binding other,
          account.additions ++ account.absent [key]⟩)
  | .insertIfNew key value =>
      (.added (account.binding key).isNone,
        ⟨fun other => (account.binding other).or (if key = other then some value else none),
          account.additions ++ account.absent [key]⟩)
  | .mergeAbsent source _ =>
      (.done,
        ⟨fun other => (account.binding other).or (source.get? other),
          account.additions ++ account.absent source.keys⟩)
  | .erase key =>
      (.before (account.binding key),
        ⟨fun other => if key = other then none else account.binding other, account.additions⟩)

def run (changes : List (Change κ α)) : Account κ α :=
  changes.foldl (fun account change => (account.perform change).2) start

/-- The keys that are bound to something, in the order in which each was added last. -/
def order (account : Account κ α) : List κ :=
  account.additions.dedup.filter fun key => (account.binding key).isSome

/-- Of the additions of one key the last one counts. -/
theorem dedup_append_of_nodup (additions : List κ) {added : List κ} (nodup : added.Nodup) :
    (additions ++ added).dedup = (additions.dedup.filter (· ∉ added)) ++ added := by
  induction additions with
  | nil => exact nodup.dedup
  | cons key rest ih =>
      by_cases later : key ∈ rest
      · rw [List.cons_append, List.dedup_cons_of_mem (List.mem_append_left _ later), ih,
          List.dedup_cons_of_mem later]
      · by_cases again : key ∈ added
        · rw [List.cons_append, List.dedup_cons_of_mem (List.mem_append_right _ again), ih,
            List.dedup_cons_of_notMem later, List.filter_cons_of_neg (by simpa using again)]
        · have fresh : key ∉ rest ++ added := by
            rw [List.mem_append]
            exact not_or.mpr ⟨later, again⟩
          rw [List.cons_append, List.dedup_cons_of_notMem fresh, ih,
            List.dedup_cons_of_notMem later, List.filter_cons_of_pos (by simpa using again)]
          rfl

/-- Absent keys that are added go to the end. -/
theorem order_of_added {account changed : Account κ α} {keys : List κ} (nodup : keys.Nodup)
    (additions : changed.additions = account.additions ++ account.absent keys)
    (bound : ∀ key, (changed.binding key).isSome =
      ((account.binding key).isSome || decide (key ∈ keys))) :
    changed.order = account.order ++ account.absent keys := by
  have boundAdded : (account.absent keys).filter (fun key => (changed.binding key).isSome) =
      account.absent keys := by
    refine List.filter_eq_self.mpr fun key listed => ?_
    rw [bound, decide_eq_true (List.mem_filter.mp listed).1, Bool.or_true]
  have absentNodup : (account.absent keys).Nodup := nodup.filter _
  rw [order, additions, dedup_append_of_nodup _ absentNodup, List.filter_append, boundAdded,
    List.filter_filter, order]
  congr 1
  apply List.filter_congr
  intro key _
  rw [bound, absent]
  cases held : account.binding key <;> simp [held]

end Account

/-! ### Maps and their accounts -/

/-- The map shows what the account tells. -/
structure Shows (map : OrderedMap κ α) (account : Account κ α) : Prop where
  distinct : map.KeysDistinct
  get?_eq : ∀ key, map.get? key = account.binding key
  keys_eq : map.keys = account.order

theorem shows_start : Shows (∅ : OrderedMap κ α) Account.start where
  distinct := keysDistinct_empty
  get?_eq _ := rfl
  keys_eq := rfl

namespace Shows

variable {map changed : OrderedMap κ α} {account told : Account κ α}

theorem isSome_binding (shows : Shows map account) (key : κ) :
    (account.binding key).isSome = decide (key ∈ map.keys) := by
  rw [← shows.get?_eq key, Bool.eq_iff_iff, decide_eq_true_iff]
  exact contains_iff_mem_keys map key

theorem absent_eq (shows : Shows map account) (keys : List κ) :
    account.absent keys = keys.filter (· ∉ map.keys) := by
  apply List.filter_congr
  intro key _
  rw [← Option.not_isSome, shows.isSome_binding]
  exact decide_not.symm

/-- One key that may be absent is a list of them. -/
theorem extend_eq (keys : List κ) (key : κ) :
    (if key ∈ keys then keys else keys ++ [key]) = keys ++ [key].filter (· ∉ keys) := by
  by_cases present : key ∈ keys <;> simp [present]

/-- A change that adds the absent ones of some keys. -/
theorem added (shows : Shows map account) {keys : List κ} (nodup : keys.Nodup)
    (distinct : changed.KeysDistinct) (get?_eq : ∀ key, changed.get? key = told.binding key)
    (keys_eq : changed.keys = map.keys ++ keys.filter (· ∉ map.keys))
    (additions : told.additions = account.additions ++ account.absent keys) :
    Shows changed told := by
  refine ⟨distinct, get?_eq, ?_⟩
  have bound : ∀ key, (told.binding key).isSome =
      ((account.binding key).isSome || decide (key ∈ keys)) := by
    intro key
    rw [← get?_eq key, shows.isSome_binding, Bool.eq_iff_iff]
    change changed.contains key = true ↔ _
    rw [contains_iff_mem_keys, keys_eq]
    by_cases present : key ∈ map.keys <;> simp [present]
  rw [keys_eq, Account.order_of_added nodup additions bound, shows.absent_eq, shows.keys_eq]

theorem insert (shows : Shows map account) (key : κ) (value : α) :
    Shows (map.insert key value) (account.perform (.insert key value)).2 := by
  refine shows.added (List.nodup_singleton key) (shows.distinct.insert key value) ?_ ?_ rfl
  · intro other
    rw [get?_insert, shows.get?_eq]
    rfl
  · rw [keys_insert, extend_eq]

theorem insertIfNew (shows : Shows map account) (key : κ) (value : α) :
    Shows (map.insertIfNew key value) (account.perform (.insertIfNew key value)).2 := by
  refine shows.added (List.nodup_singleton key) (shows.distinct.insertIfNew key value) ?_ ?_ rfl
  · intro other
    rw [get?_insertIfNew, shows.get?_eq]
    rfl
  · rw [keys_insertIfNew, extend_eq]

theorem mergeAbsent (shows : Shows map account) {source : OrderedMap κ α}
    (distinct : source.KeysDistinct) :
    Shows (map.mergeAbsent source) (account.perform (.mergeAbsent source distinct)).2 := by
  refine shows.added distinct (shows.distinct.mergeAbsent source) ?_
    (keys_mergeAbsent_of_distinct map distinct) rfl
  intro key
  rw [get?_mergeAbsent, shows.get?_eq]
  rfl

theorem erase (shows : Shows map account) (key : κ) :
    Shows (map.erase key) (account.perform (.erase key)).2 := by
  refine ⟨shows.distinct.erase key, ?_, ?_⟩
  · intro other
    rw [get?_erase shows.distinct, shows.get?_eq]
    rfl
  · rw [keys_erase shows.distinct, shows.keys_eq, Account.order, List.filter_filter, Account.order]
    apply List.filter_congr
    intro other _
    by_cases same : key = other
    · simp [Account.perform, same]
    · simp [Account.perform, same, Ne.symm same]

theorem perform (shows : Shows map account) (change : Change κ α) :
    (map.perform change).1 = (account.perform change).1 ∧
      Shows (map.perform change).2 (account.perform change).2 := by
  cases change with
  | insert key value => exact ⟨congrArg _ (shows.get?_eq key), shows.insert key value⟩
  | insertIfNew key value =>
      refine ⟨?_, shows.insertIfNew key value⟩
      change Change.Answer.added (!(map.get? key).isSome) = .added (account.binding key).isNone
      rw [shows.get?_eq, Option.not_isSome]
  | mergeAbsent source distinct => exact ⟨rfl, shows.mergeAbsent distinct⟩
  | erase key => exact ⟨congrArg _ (shows.get?_eq key), shows.erase key⟩

end Shows

theorem shows_run (changes : List (Change κ α)) : Shows (run changes) (Account.run changes) := by
  suffices continued : ∀ (map : OrderedMap κ α) (account : Account κ α), Shows map account →
      Shows (changes.foldl (fun map change => (map.perform change).2) map)
        (changes.foldl (fun account change => (account.perform change).2) account) from
    continued ∅ Account.start shows_start
  induction changes with
  | nil => exact fun map account shows => shows
  | cons change rest ih => exact fun map account shows => ih _ _ (shows.perform change).2

/-- A map with distinct keys comes about by the insertion of its entries. -/
theorem keysDistinct_iff_exists_run (map : OrderedMap κ α) :
    map.KeysDistinct ↔ ∃ changes, run changes = map := by
  constructor
  · intro distinct
    refine ⟨map.entries.map fun entry => .insert entry.1 entry.2, ?_⟩
    rw [run, List.foldl_map]
    exact ofList_entries distinct
  · rintro ⟨changes, rfl⟩
    exact (shows_run changes).distinct

/-- After any run of changes the keys are distinct, lookups and answers are those of the account,
and the keys stand in the order in which each was added last. The maps that changes make are those
with distinct keys, and of such a map a change leaves all entries but its own as they are, in their
order: an overwritten entry keeps its place, and new ones go to the end. -/
theorem refines_insertion_ordered_map :
    (∀ changes : List (Change κ α),
      (run changes).KeysDistinct ∧
      (∀ key, (run changes).get? key = (Account.run changes).binding key ∧
        ((run changes).contains key = true ↔
          ∃ value, (Account.run changes).binding key = some value)) ∧
      (run changes).keys = (Account.run changes).order ∧
      ∀ change, ((run changes).perform change).1 = ((Account.run changes).perform change).1) ∧
    (∀ map : OrderedMap κ α, map.KeysDistinct ↔ ∃ changes, run changes = map) ∧
    ∀ map : OrderedMap κ α, map.KeysDistinct →
      (∀ key value, (map.insert key value).entries =
        map.entries.map (fun entry => if entry.1 = key then (key, value) else entry) ++
          if key ∈ map.keys then [] else [(key, value)]) ∧
      (∀ key value, (map.insertIfNew key value).entries =
        map.entries ++ if key ∈ map.keys then [] else [(key, value)]) ∧
      (∀ source : OrderedMap κ α, source.KeysDistinct → (map.mergeAbsent source).entries =
        map.entries ++ source.entries.filter fun entry => entry.1 ∉ map.keys) ∧
      ∀ key, (map.erase key).entries = map.entries.filter fun entry => entry.1 ≠ key := by
  refine ⟨?_, keysDistinct_iff_exists_run, ?_⟩
  · intro changes
    have shows := shows_run changes
    refine ⟨shows.distinct, fun key => ⟨shows.get?_eq key, ?_⟩, shows.keys_eq,
      fun change => (shows.perform change).1⟩
    rw [contains, shows.get?_eq, Option.isSome_iff_exists]
  · intro map distinct
    refine ⟨entries_insert distinct, ?_, fun source => entries_mergeAbsent_of_distinct map,
      entries_erase distinct⟩
    intro key value
    rw [insertIfNew]
    by_cases present : key ∈ map.keys
    · rw [if_pos ((contains_iff_mem_keys map key).mpr present), if_pos present, List.append_nil]
    · rw [if_neg fun held => present ((contains_iff_mem_keys map key).mp held), if_neg present]

/-- A key that is added again after its removal goes to the end. -/
example : (run [.insert "size" 1, .insert "color" 2, .erase "size", .insertIfNew "size" 3,
    .insert "color" 4]).entries = [("color", 4), ("size", 3)] := by decide

end Cascade.OrderedMap
