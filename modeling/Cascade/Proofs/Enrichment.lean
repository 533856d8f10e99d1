import Cascade.Proofs.Descent
import Cascade.Proofs.Insertions
import Cascade.Proofs.Listing
import Cascade.Proofs.Success
import Mathlib.Data.List.Flatten
set_option autoImplicit false

/-! Richer contexts: nodes may get variants, and further ancestors may come between the others. What
matched before still matches, so that references, and the listing of payloads, only grow. Main
statement: a context resolves if a richer one does, which then has all of its keys. -/

namespace Cascade

namespace Context

/-- The richer node has the same name and at least the same variants. -/
structure Node.Extends (richer node : Node) : Prop where
  name_eq : richer.name = node.name
  variants : ∀ variant ∈ node.variants.members, variant ∈ richer.variants.members

instance (richer node : Node) : Decidable (richer.Extends node) :=
  decidable_of_iff (richer.name = node.name ∧
      ∀ variant ∈ node.variants.members, variant ∈ richer.variants.members)
    ⟨fun both => ⟨both.1, both.2⟩, fun extended => ⟨extended.name_eq, extended.variants⟩⟩

/-- The subject is extended, and each ancestor has its place among those of the richer context, in
the same order, at a node that extends it. -/
structure Extends (richer context : Context) : Prop where
  subject : richer.subject.Extends context.subject
  ancestors : ∃ place : Fin context.ancestors.length → Fin richer.ancestors.length,
    StrictMono place ∧ ∀ index,
      (richer.ancestors.get (place index)).Extends (context.ancestors.get index)

variable {context richer : Context}

theorem Extends.name_eq (extended : richer.Extends context) : richer.name = context.name :=
  extended.subject.name_eq

theorem Extends.forMixin (extended : richer.Extends context) (name : String) :
    (richer.forMixin name).Extends (context.forMixin name) where
  subject := ⟨rfl, extended.subject.variants⟩
  ancestors := extended.ancestors

end Context

/-! ### Matching -/

theorem Term.Describes.of_extends {term : Term} {node richer : Context.Node}
    (describes : term.Describes node) (extended : richer.Extends node) : term.Describes richer :=
  ⟨describes.1.trans extended.name_eq.symm,
    fun variant listed => extended.variants variant (describes.2 variant listed)⟩

variable {context richer : Context}

theorem Selector.matches_of_extends {selector : Selector} (extended : richer.Extends context)
    (matched : selector.matches context = true) : selector.matches richer = true := by
  rw [Selector.matches_iff_sublistForall₂] at matched ⊢
  obtain ⟨place, increasing, describes⟩ := exists_place_of_sublistForall₂ matched.2
  obtain ⟨further, furtherIncreasing, nodes⟩ := extended.ancestors
  refine ⟨matched.1.of_extends extended.subject, ?_⟩
  apply sublistForall₂_of_place (further ∘ place) (furtherIncreasing.comp increasing)
  intro index
  exact (describes index).of_extends (nodes (place index))

namespace RuleStore

variable {store : RuleStore} {limit : Nat}

theorem matching_sublist (extended : richer.Extends context) :
    (store.matching context).Sublist (store.matching richer) := by
  rw [matching, matching, extended.name_eq]
  exact List.monotone_filter_right _ fun rule => Selector.matches_of_extends extended

theorem Refers.of_extends (extended : richer.Extends context) {name mixin : String}
    (refers : store.Refers context name mixin) : store.Refers richer name mixin := by
  obtain ⟨rule, anchored, matched, listed⟩ := refers
  exact ⟨rule, anchored, Selector.matches_of_extends (extended.forMixin name) matched, listed⟩

theorem resolve_succeeds_of_extends (extended : richer.Extends context)
    (succeeds : ∃ payload, store.resolve limit richer = .ok payload) :
    ∃ payload, store.resolve limit context = .ok payload := by
  rw [resolve_succeeds_iff] at succeeds ⊢
  intro names chain
  rw [extended.name_eq] at succeeds
  refine succeeds names ⟨fun first isFirst => (chain.head first isFirst).of_extends extended, ?_⟩
  exact chain.links.imp fun _ _ refers => refers.of_extends extended

end RuleStore

/-! ### Payloads -/

/-- Further rules match, and further mixins are entered, between those that were before. -/
theorem Listing.sublist_of_extends {store : RuleStore} {listing longer : List ResolvedPayload}
    (extended : richer.Extends context) (before : Listing store context listing)
    (after : Listing store richer longer) : listing.Sublist longer := by
  induction before generalizing richer longer with
  | visit context nested entered ih =>
      obtain ⟨_, others, enteredOthers⟩ := after
      have more : (store.matching context).Sublist (store.matching _) :=
        RuleStore.matching_sublist extended
      refine List.Sublist.trans (List.Sublist.flatMap_right _ ?_) (more.flatMap _)
      intro rule matching
      refine List.Sublist.cons_cons _ (List.Sublist.flatMap_right _ ?_)
      intro name listed
      exact ih rule matching name listed (extended.forMixin name)
        (enteredOthers rule (more.mem matching) name listed)

namespace ResolvedPayload

/-- The wider map is there if the other one is, and has all of its keys. -/
def Covers (wider map : Option PropMap) : Prop :=
  ∀ present, map = some present →
    ∃ other, wider = some other ∧ ∀ key ∈ present.keys, key ∈ other.keys

theorem mem_keys_iff_of_flattens {maps : List (Option PropMap)} {present : PropMap}
    (flat : Flattens maps (some present)) (key : String) :
    key ∈ present.keys ↔ ∃ part ∈ maps, key ∈ (part.getD ∅).keys := by
  rw [OrderedMap.keys, flat.entries_eq present rfl, OrderedMap.mem_keys_firstWrites, writes,
    List.map_flatMap, List.mem_flatMap]
  rfl

theorem Flattens.covers {maps wider : List (Option PropMap)} {map other : Option PropMap}
    (flat : Flattens maps map) (flatWider : Flattens wider other)
    (among : ∀ part ∈ maps, part ∈ wider) : Covers other map := by
  intro present isPresent
  cases held : other with
  | none =>
      have absent : map = none := flat.absent_iff.mpr fun part inside =>
        flatWider.absent_iff.mp held part (among part inside)
      rw [absent] at isPresent
      cases isPresent
  | some more =>
      refine ⟨more, rfl, fun key inside => ?_⟩
      rw [isPresent] at flat
      rw [held] at flatWider
      obtain ⟨part, isPart, hasKey⟩ := (mem_keys_iff_of_flattens flat key).mp inside
      exact (mem_keys_iff_of_flattens flatWider key).mpr ⟨part, among part isPart, hasKey⟩

end ResolvedPayload

/-- A richer context is matched by every selector that matches the other, and resolves only if the
other does, too. Then it has every key of the other, and props and style whenever the other has. -/
theorem RuleStore.richer_context_only_adds (extended : richer.Extends context) :
    (∀ selector : Selector, selector.matches context = true → selector.matches richer = true) ∧
    ∀ (store : RuleStore) (limit : Nat) (more : ResolvedPayload),
      store.resolve limit richer = .ok more →
        ∃ payload, store.resolve limit context = .ok payload ∧
          ResolvedPayload.Covers more.props payload.props ∧
          ResolvedPayload.Covers more.style payload.style := by
  refine ⟨fun selector => Selector.matches_of_extends extended, ?_⟩
  intro store limit more resolvedRicher
  obtain ⟨payload, resolved⟩ := resolve_succeeds_of_extends extended ⟨more, resolvedRicher⟩
  obtain ⟨longer, isLonger, rfl⟩ := listing_of_resolve resolvedRicher
  obtain ⟨listing, isListing, rfl⟩ := listing_of_resolve resolved
  have grown := isListing.sublist_of_extends extended isLonger
  obtain ⟨flatProps, flatStyle⟩ := ResolvedPayload.flattens_mergeAll listing
  obtain ⟨moreProps, moreStyle⟩ := ResolvedPayload.flattens_mergeAll longer
  exact ⟨_, resolved,
    flatProps.covers moreProps fun _ inside => (grown.map ResolvedPayload.props).mem inside,
    flatStyle.covers moreStyle fun _ inside => (grown.map ResolvedPayload.style).mem inside⟩

/-! Texts of buttons have a font, which is another one in dialogs as soon as they are active. -/

namespace Sample

def captions : RuleStore := .ofInsertions [
  ⟨⟨[⟨"App", []⟩, ⟨"Button", []⟩], ⟨"Text", ["hover"]⟩⟩,
    ⟨some ⟨[("size", .int 12)]⟩, none, ["font"]⟩, .explicit⟩,
  ⟨⟨[⟨"Dialog", []⟩], ⟨"font", ["active"]⟩⟩,
    ⟨none, some ⟨[("face", .str "serif")]⟩, []⟩, .default⟩]

def caption : Context :=
  ⟨[.ofName "App", .ofName "Button"], (Context.Node.ofName "Text").withVariant "hover"⟩

def activeCaption : Context :=
  ⟨[(Context.Node.ofName "App").withVariant "dark", .ofName "Dialog", .ofName "Button"],
    (Context.Node.ofName "Text").withVariants ["hover", "active"]⟩

theorem activeCaption_extends : activeCaption.Extends caption where
  subject := by decide
  ancestors := by
    refine ⟨fun index => if index.val = 0 then ⟨0, by decide⟩ else ⟨2, by decide⟩, ?_, ?_⟩
    · intro earlier later before
      revert earlier later
      decide
    · decide

end Sample

namespace RuleStore

open Sample (captions caption activeCaption)

/-- The size is set for both captions, the font for the active one alone. -/
theorem active_caption_adds_font :
    activeCaption.Extends caption ∧
      captions.resolve 1 activeCaption =
        .ok ⟨some ⟨[("size", .int 12)]⟩, some ⟨[("face", .str "serif")]⟩⟩ ∧
      captions.resolve 1 caption = .ok ⟨some ⟨[("size", .int 12)]⟩, none⟩ ∧
      ∃ payload, captions.resolve 1 caption = .ok payload ∧
        ResolvedPayload.Covers (some ⟨[("size", .int 12)]⟩) payload.props ∧
        ResolvedPayload.Covers (some ⟨[("face", .str "serif")]⟩) payload.style := by
  have resolved : captions.resolve 1 activeCaption =
      .ok ⟨some ⟨[("size", .int 12)]⟩, some ⟨[("face", .str "serif")]⟩⟩ := by cbv
  exact ⟨Sample.activeCaption_extends, resolved, by cbv,
    (richer_context_only_adds Sample.activeCaption_extends).2 captions 1 _ resolved⟩

end RuleStore

end Cascade
