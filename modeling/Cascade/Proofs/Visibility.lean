import Cascade.Proofs.Expansion
import Cascade.Proofs.Insertions
import Mathlib.Data.List.Permutation
set_option autoImplicit false

/-! What a resolution sees of a store: the payloads of the rules that match its context, under each
of the names that it comes to, and their order. Neither ids nor the other rules count. Main
statement: the insertion of a rule that cannot match changes no resolution, errors included. -/

namespace Cascade

/-! ### Stores that look the same -/

namespace Expansion

variable {m : Type → Type} [Monad m]

theorem expandRule_congr (enter : String → ResolvedPayload → m Expansion) {rule other : Rule}
    (same : rule.payload = other.payload) : expandRule enter rule = expandRule enter other := by
  unfold expandRule ofRule Rule.ownPayload
  rw [same]

theorem mergeRules_congr (enter : String → ResolvedPayload → m Expansion)
    {rules others : List Rule} (same : rules.map Rule.payload = others.map Rule.payload)
    (expansion : Expansion) :
    mergeRules (expandRule enter) expansion rules =
      mergeRules (expandRule enter) expansion others := by
  induction rules generalizing others expansion with
  | nil => rw [List.map_eq_nil_iff.mp same.symm]
  | cons rule rest ih =>
      obtain ⟨other, later, rfl, sameFirst, sameLater⟩ := List.map_eq_cons_iff.mp same.symm
      have sameOwn : ofRule rule = ofRule other := by
        unfold ofRule Rule.ownPayload
        rw [sameFirst]
      rw [mergeRules, mergeRules, sameFirst, sameOwn, expandRule_congr enter sameFirst.symm]
      split
      · exact ih sameLater.symm _
      · exact congrArg _ (funext fun contribution => ih sameLater.symm _)

end Expansion

namespace RuleStore

/-- The context meets the same payloads in both stores, whichever mixin it is renamed to. -/
def ShowsAlike (store other : RuleStore) (context : Context) : Prop :=
  ∀ name, (store.matching (context.forMixin name)).map Rule.payload =
    (other.matching (context.forMixin name)).map Rule.payload

variable {store other : RuleStore} {context : Context}

theorem ShowsAlike.forMixin (alike : store.ShowsAlike other context) (name : String) :
    store.ShowsAlike other (context.forMixin name) := alike

end RuleStore

namespace Resolution

variable {store other : RuleStore} {limit room : Nat} {path : List String} {context : Context}

theorem visit_of_enter (alike : store.ShowsAlike other context)
    (entered : enter store limit room path context = enter other limit room path context)
    (payload : ResolvedPayload) :
    visit store limit room path context payload = visit other limit room path context payload := by
  rw [visit_eq, visit_eq, entered]
  exact Expansion.mergeRules_congr _ (alike context.name) _

theorem enter_congr (alike : store.ShowsAlike other context) :
    enter store limit room path context = enter other limit room path context := by
  induction room generalizing path context with
  | zero => rfl
  | succ left ih =>
      funext name payload
      by_cases repeated : name ∈ path
      · rw [enter_of_mem repeated, enter_of_mem repeated]
      · rw [enter_succ repeated, enter_succ repeated]
        exact visit_of_enter (alike.forMixin name) (ih (alike.forMixin name)) payload

end Resolution

namespace RuleStore

theorem resolve_congr {store other : RuleStore} {context : Context}
    (alike : store.ShowsAlike other context) (limit : Nat) :
    store.resolve limit context = other.resolve limit context := by
  unfold resolve
  rw [Resolution.visit_of_enter alike (Resolution.enter_congr alike)]

end RuleStore

/-! ### Rules that cannot match -/

/-- A selector matches contexts of its own name only. -/
theorem Selector.name_of_matches {selector : Selector} {context : Context}
    (matched : selector.matches context = true) : selector.name = context.name := by
  rw [Selector.matches, Term.matches, Bool.and_eq_true, Bool.and_eq_true, beq_iff_eq] at matched
  exact matched.1.1

theorem Selector.unmatched_forMixin {selector : Selector} {context : Context}
    (unmatched : selector.matches (context.forMixin selector.name) = false) (name : String) :
    selector.matches (context.forMixin name) = false := by
  by_contra matched
  have sameName : selector.name = name := name_of_matches (eq_true_of_ne_false matched)
  rw [← sameName] at matched
  exact matched unmatched

namespace RuleStore

variable {rules : List Rule} {store : RuleStore} {context : Context}

theorem LeftBy.matching_eq (left : LeftBy rules store) (context : Context) :
    store.matching context =
      bucketOf (rules.filter fun rule => rule.matches context) context.name := by
  rw [matching, left.bucket]
  exact filter_bucketOf rules context.name fun slot => slot.selector.matches context

/-- Where the rule goes, and which one gives way to it, makes no difference: the rules that match
keep their places relative to each other. -/
theorem LeftBy.matching_add (left : LeftBy rules store) (next : Insertion)
    (unmatched : next.selector.matches context = false) :
    (store.add next).2.matching context = store.matching context := by
  have ignored : (rules ++ [next.toRule rules.length]).filter (fun rule => rule.matches context) =
      rules.filter fun rule => rule.matches context := by
    have nothing : [next.toRule rules.length].filter (fun rule => rule.matches context) = [] :=
      List.filter_cons_of_neg (ne_true_of_eq_false unmatched)
    rw [List.filter_append, nothing, List.append_nil]
  rw [(left.add next).matching_eq, left.matching_eq, ignored]

/-- A rule whose selector does not match the context, not even as a mixin, leaves the resolution of
the context as it was, whether the rule is new or takes the place of another. -/
theorem resolve_insert_of_unmatched (insertions : List Insertion) {selector : Selector}
    (payload : RulePayload) (rank : Rank) (limit : Nat) {context : Context}
    (unmatched : selector.matches (context.forMixin selector.name) = false) :
    ((ofInsertions insertions).insert selector payload rank).2.resolve limit context =
      (ofInsertions insertions).resolve limit context := by
  apply resolve_congr
  intro name
  have same := (leftBy_ofInsertions insertions).matching_add ⟨selector, payload, rank⟩
    (Selector.unmatched_forMixin unmatched name)
  exact congrArg (List.map Rule.payload) same

end RuleStore

/-! Texts have a font as a mixin. In dialogs it is another one than elsewhere. -/

namespace Sample

def text : Insertion := ⟨⟨[], ⟨"Text", []⟩⟩, ⟨none, none, ["font"]⟩, .explicit⟩

def font (face : String) : Insertion :=
  ⟨⟨[], ⟨"font", []⟩⟩, ⟨none, some ⟨[("face", .str face)]⟩, []⟩, .default⟩

def dialogFont (face : String) : Insertion :=
  ⟨⟨[⟨"Dialog", []⟩], ⟨"font", []⟩⟩, ⟨none, some ⟨[("face", .str face)]⟩, []⟩, .default⟩

def label : Context := (Context.ofRoot (.ofName "Button")).child (.ofName "Text")

def message : Context := (Context.ofRoot (.ofName "Dialog")).child (.ofName "Text")

end Sample

namespace RuleStore

/-- Outside of dialogs nobody sees that their font changes, or that they get a further one. -/
theorem text_ignores_dialog_font :
    let store := ofInsertions [Sample.text, Sample.dialogFont "serif", Sample.font "sans"]
    let selector := (Sample.dialogFont "mono").selector
    let changed := store.insert selector {} .default
    let further := store.insert selector {} .explicit
    selector.matches (Sample.label.forMixin selector.name) = false ∧
      store.resolve 1 Sample.label = .ok ⟨none, some ⟨[("face", .str "sans")]⟩⟩ ∧
      changed.1 = .replaced ⟨1⟩ ⟨3⟩ ∧ further.1 = .inserted ⟨3⟩ ∧
      changed.2.resolve 1 Sample.label = store.resolve 1 Sample.label ∧
      further.2.resolve 1 Sample.label = store.resolve 1 Sample.label := by
  have unmatched : (Sample.dialogFont "mono").selector.matches
      (Sample.label.forMixin (Sample.dialogFont "mono").selector.name) = false := by decide
  exact ⟨unmatched, by cbv, by cbv, by cbv,
    resolve_insert_of_unmatched _ {} .default 1 unmatched,
    resolve_insert_of_unmatched _ {} .explicit 1 unmatched⟩

end RuleStore

end Cascade
