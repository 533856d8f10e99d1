import Cascade.Proofs.Expansion
import Mathlib.Data.List.Permutation
set_option autoImplicit false

/-! What a resolution amounts to. The matching rules, each followed by all that its mixins list,
form one depth-first listing of payloads; a resolution that succeeds has the first write of every
key in the listing. The listing knows of neither a depth limit nor a path. -/

namespace Cascade

/-- The payloads that a context calls for, the strongest first. `nested` has the listings of the
mixins, by name. Where mixins refer to each other in a circle, there is no listing. -/
inductive Listing (store : RuleStore) : Context → List ResolvedPayload → Prop where
  | visit (context : Context) (nested : String → List ResolvedPayload)
      (entered : ∀ rule ∈ store.matching context, ∀ name ∈ rule.payload.mixins,
        Listing store (context.forMixin name) (nested name)) :
      Listing store context ((store.matching context).flatMap fun rule =>
        rule.ownPayload :: rule.payload.mixins.flatMap nested)

namespace Listing

variable {store : RuleStore} {context : Context}

theorem unique {listing other : List ResolvedPayload} (first : Listing store context listing)
    (second : Listing store context other) : listing = other := by
  induction first generalizing other with
  | visit context nested entered ih =>
      obtain ⟨_, others, enteredOthers⟩ := second
      apply List.flatMap_congr
      intro rule matching
      congr 1
      apply List.flatMap_congr
      intro name listed
      exact ih rule matching name listed (enteredOthers rule matching name listed)

/-- The listings of all mixins of a context, as far as there are any. -/
theorem exists_nested (store : RuleStore) (context : Context) :
    ∃ nested : String → List ResolvedPayload, ∀ name listing,
      Listing store (context.forMixin name) listing → nested name = listing := by
  have pointwise : ∀ name, ∃ chosen, ∀ listing,
      Listing store (context.forMixin name) listing → chosen = listing := by
    intro name
    by_cases listed : ∃ listing, Listing store (context.forMixin name) listing
    · obtain ⟨chosen, isListing⟩ := listed
      exact ⟨chosen, fun listing other => isListing.unique other⟩
    · exact ⟨[], fun listing isListing => absurd ⟨listing, isListing⟩ listed⟩
  exact Classical.skolem.mp pointwise

end Listing

namespace Resolution

variable {store : RuleStore} {limit : Nat}

/-- What entering the mixins of one context must do for its visit to follow the listing. -/
def Follows (store : RuleStore) (context : Context)
    (enter : String → ResolvedPayload → Except StyleError Expansion) : Prop :=
  ∀ name payload result, enter name payload = .ok result →
    ∃ listing, Listing store (context.forMixin name) listing ∧
      result.payload = payload.mergeAll listing

section Nested

variable {context : Context} {enter : String → ResolvedPayload → Except StyleError Expansion}

theorem payload_enterNext (nested : String → List ResolvedPayload)
    (chosen : ∀ name listing, Listing store (context.forMixin name) listing → nested name = listing)
    (follows : Follows store context enter) (before : Expansion) (name : String)
    (after : Expansion) (entered : Expansion.enterNext enter before name = .ok after) :
    after.payload = before.payload.mergeAll (nested name) := by
  obtain ⟨grown, succeeds, rfl⟩ := (Expansion.map_eq_ok _ _ _).mp entered
  obtain ⟨listing, isListing, merged⟩ := follows name before.payload grown succeeds
  rw [chosen name listing isListing]
  exact merged

theorem payload_expandRule (nested : String → List ResolvedPayload)
    (chosen : ∀ name listing, Listing store (context.forMixin name) listing → nested name = listing)
    (follows : Follows store context enter) {rule : Rule} {result : Expansion}
    (expanded : Expansion.expandRule enter rule = .ok result) :
    result.payload = rule.ownPayload.mergeAll (rule.payload.mixins.flatMap nested) := by
  rw [Expansion.expandRule, Expansion.mergeMixins_eq_foldlM] at expanded
  exact Expansion.foldlM_payload (payload_enterNext nested chosen follows) expanded

theorem payload_expandNext (nested : String → List ResolvedPayload)
    (chosen : ∀ name listing, Listing store (context.forMixin name) listing → nested name = listing)
    (follows : Follows store context enter) (before : Expansion) (rule : Rule) (after : Expansion)
    (expanded : Expansion.expandNext (Expansion.expandRule enter) before rule = .ok after) :
    after.payload =
      before.payload.mergeAll (rule.ownPayload :: rule.payload.mixins.flatMap nested) := by
  rw [Expansion.expandNext_expandRule, Expansion.map_eq_ok] at expanded
  obtain ⟨contribution, succeeds, rfl⟩ := expanded
  have contributed := payload_expandRule nested chosen follows succeeds
  calc before.payload.mergeAbsent contribution.payload
      = before.payload.mergeAbsent
          (rule.ownPayload.mergeAll (rule.payload.mixins.flatMap nested)) := by rw [contributed]
    _ = (before.payload.mergeAbsent rule.ownPayload).mergeAll
          (rule.payload.mixins.flatMap nested) := ResolvedPayload.mergeAbsent_mergeAll _ _ _

end Nested

variable {room : Nat} {path : List String} {context : Context} {payload : ResolvedPayload}
  {result : Expansion}

theorem exists_listing_of_visit
    (follows : Follows store context (enter store limit room path context))
    (visited : visit store limit room path context payload = .ok result) :
    ∃ listing, Listing store context listing ∧ result.payload = payload.mergeAll listing := by
  rw [visit_eq] at visited
  obtain ⟨nested, chosen⟩ := Listing.exists_nested store context
  refine ⟨_, .visit context nested ?_, ?_⟩
  · intro rule matching name listed
    obtain ⟨contribution, expanded, _⟩ := (Expansion.mergeRules_depth visited).1 rule matching
    obtain ⟨before, grown, entered, _⟩ := (Expansion.expandRule_depth expanded).1 name listed
    obtain ⟨listing, isListing, _⟩ := follows name before grown entered
    rw [chosen name listing isListing]
    exact isListing
  · rw [Expansion.mergeRules_eq_foldlM] at visited
    exact Expansion.foldlM_payload (payload_expandNext nested chosen follows) visited

theorem follows_enter (store : RuleStore) (limit room : Nat) (path : List String)
    (context : Context) : Follows store context (enter store limit room path context) := by
  induction room generalizing path context with
  | zero =>
      intro name payload result entered
      obtain ⟨_, left, impossible, _⟩ := (enter_eq_ok_iff name payload result).mp entered
      cases impossible
  | succ left ih =>
      intro name payload result entered
      obtain ⟨_, before, same, visited⟩ := (enter_eq_ok_iff name payload result).mp entered
      cases same
      exact exists_listing_of_visit (ih (path ++ [name]) (context.forMixin name)) visited

theorem listing_of_visit (visited : visit store limit room path context payload = .ok result) :
    ∃ listing, Listing store context listing ∧ result.payload = payload.mergeAll listing :=
  exists_listing_of_visit (follows_enter store limit room path context) visited

end Resolution

namespace RuleStore

variable {store : RuleStore} {limit : Nat} {context : Context} {payload : ResolvedPayload}

theorem listing_of_resolve (resolved : store.resolve limit context = .ok payload) :
    ∃ listing, Listing store context listing ∧
      payload = (∅ : ResolvedPayload).mergeAll listing := by
  obtain ⟨expansion, visited, rfl⟩ := resolve_eq_ok_iff.mp resolved
  exact Resolution.listing_of_visit visited

/-- A resolution that succeeds is the flat form of the one listing of its context, and the same
under every limit under which it succeeds. -/
theorem resolve_flattens_listing (resolved : store.resolve limit context = .ok payload) :
    ∃ listing, Listing store context listing ∧
      (∀ other, Listing store context other → other = listing) ∧
      ResolvedPayload.Flattens (listing.map ResolvedPayload.props) payload.props ∧
      ResolvedPayload.Flattens (listing.map ResolvedPayload.style) payload.style ∧
      ∀ otherLimit other, store.resolve otherLimit context = .ok other → other = payload := by
  obtain ⟨listing, isListing, rfl⟩ := listing_of_resolve resolved
  obtain ⟨flatProps, flatStyle⟩ := ResolvedPayload.flattens_mergeAll listing
  refine ⟨listing, isListing, fun other isOther => isOther.unique isListing, flatProps, flatStyle,
    ?_⟩
  intro otherLimit other otherResolved
  obtain ⟨again, isAgain, rfl⟩ := listing_of_resolve otherResolved
  rw [isAgain.unique isListing]

/-- Labels of buttons have a font of their own, which goes before what all texts have. -/
def labels : RuleStore :=
  let text : Term := ⟨"Text", []⟩
  let size (number : Int64) : String × Value := ("size", .int number)
  let color (name : String) : String × Value := ("color", .str name)
  let (_, store) := RuleStore.empty.insert ⟨[], text⟩
    ⟨some ⟨[size 12, color "black"]⟩, none, []⟩ .explicit
  let (_, store) := store.insert ⟨[⟨"Button", []⟩], text⟩
    ⟨some ⟨[size 14]⟩, none, ["font"]⟩ .explicit
  let (_, store) := store.insert ⟨[], ⟨"font", []⟩⟩
    ⟨some ⟨[color "grey"]⟩, some ⟨[("face", .str "serif")]⟩, []⟩ .default
  store

def label : Context := (Context.ofRoot (.ofName "Button")).child (.ofName "Text")

def labelPayload : ResolvedPayload :=
  ⟨some ⟨[("size", .int 14), ("color", .str "grey")]⟩, some ⟨[("face", .str "serif")]⟩⟩

theorem label_flattens_listing : labels.resolve 1 label = .ok labelPayload ∧
    ∃ listing, Listing labels label listing ∧
      (∀ other, Listing labels label other → other = listing) ∧
      ResolvedPayload.Flattens (listing.map ResolvedPayload.props) labelPayload.props ∧
      ResolvedPayload.Flattens (listing.map ResolvedPayload.style) labelPayload.style ∧
      ∀ otherLimit other, labels.resolve otherLimit label = .ok other → other = labelPayload := by
  have resolved : labels.resolve 1 label = .ok labelPayload := by cbv
  exact ⟨resolved, resolve_flattens_listing resolved⟩

end RuleStore

end Cascade
