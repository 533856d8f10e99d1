import Cascade.OrderedMap.Basic
import Cascade.Rule.Basic
set_option autoImplicit false

/-! The rule store: rules in buckets by the name of their anchor. A bucket is in the order in
which its rules are visited: by rank, then by specificity, both descending, and among equals by
the first insertion of their selectors. -/

namespace Cascade

structure RuleStore where
  buckets : OrderedMap String (List Rule) := ∅
  /-- How many rules were added: the number of the next one. -/
  nextId : Nat := 0
  size : Nat := 0

inductive InsertOutcome where
  | inserted (id : RuleId)
  /-- A rule with the same selector and rank gave way. -/
  | replaced (old new : RuleId)
deriving DecidableEq

namespace InsertOutcome

def id : InsertOutcome → RuleId
  | .inserted id => id
  | .replaced _ new => new

end InsertOutcome

namespace Bucket

/-- The order in which rules are visited. Rules of equal priority keep their order. -/
def sort (rules : List Rule) : List Rule := rules.mergeSort fun rule other => !other.outranks rule

/-- Puts a rule in the place of the one with its selector and rank. -/
def replace (rule : Rule) : List Rule → List Rule
  | [] => []
  | first :: rest => if first.sameSlot rule then rule :: rest else first :: replace rule rest

end Bucket

namespace RuleStore

def empty : RuleStore := {}

instance : EmptyCollection RuleStore := ⟨empty⟩

instance : Inhabited RuleStore := ⟨empty⟩

def rulesAnchoredAt (store : RuleStore) (name : String) : List Rule :=
  (store.buckets.get? name).getD []

/-- Adds a rule under a fresh id. It takes the place of a rule with the same selector and rank, or
else the last place; then the bucket is sorted. -/
def insert (store : RuleStore) (selector : Selector) (payload : RulePayload) (rank : Rank) :
    InsertOutcome × RuleStore :=
  let id : RuleId := ⟨store.nextId⟩
  let rule : Rule := { id, selector, rank, payload }
  let bucket := store.rulesAnchoredAt rule.key
  let withBucket (changed : List Rule) (size : Nat) : RuleStore :=
    { buckets := store.buckets.insert rule.key (Bucket.sort changed)
      nextId := store.nextId + 1
      size }
  match bucket.find? (·.sameSlot rule) with
  | some old => (.replaced old.id id, withBucket (Bucket.replace rule bucket) store.size)
  | none => (.inserted id, withBucket (bucket ++ [rule]) (store.size + 1))

def rules (store : RuleStore) : List Rule := store.buckets.values.flatten

def isEmpty (store : RuleStore) : Bool := store.size == 0

def bucketCount (store : RuleStore) : Nat := store.buckets.size

end RuleStore

end Cascade
