import Cascade.Proofs.CanonicalText
import Cascade.Proofs.Descent
import Mathlib.Data.List.Sort
set_option autoImplicit false

/-! The text of a context. A path and a selector have one grammar; what is read as either names the
same nodes. Main statement: a selector matches the context of its own text, and a context reads back
from its text exactly if the names and the variants of its nodes are words. -/

namespace Cascade

/-! ### Sets of variants -/

namespace VariantSet

theorem mem_insertMany (variants : VariantSet) (added : List String) (variant : String) :
    variant ∈ (variants.insertMany added).members ↔
      variant ∈ variants.members ∨ variant ∈ added := by
  induction added generalizing variants with
  | nil => simp [insertMany]
  | cons first rest ih =>
      have continued := ih (variants.insert first)
      rw [insertMany] at continued ⊢
      rw [List.foldl_cons, continued, insert, mem_place, List.mem_cons]
      tauto

/-- A set is determined by its members. -/
theorem eq_of_mem_iff {left right : VariantSet}
    (same : ∀ variant, variant ∈ left.members ↔ variant ∈ right.members) : left = right := by
  obtain ⟨members, ascending⟩ := left
  obtain ⟨others, othersAscending⟩ := right
  have equal : members = others := ascending.eq_of_mem_iff othersAscending same
  subst equal
  rfl

end VariantSet

namespace Context

/-! ### Nodes and terms -/

/-- The nodes from the outside in, the subject last. -/
def nodes (context : Context) : List Node := context.ancestors ++ [context.subject]

namespace Node

/-- The term that lists the variants of a node in their order. -/
def term (node : Node) : Term := ⟨node.name, node.variants.members⟩

theorem mem_variants_ofTerm (term : Term) (variant : String) :
    variant ∈ (ofTerm term).variants.members ↔ variant ∈ term.variants := by
  have inserted := VariantSet.mem_insertMany ∅ term.variants variant
  rw [ofTerm, withVariants, ofName, inserted]
  exact or_iff_right List.not_mem_nil

theorem ofTerm_term (node : Node) : ofTerm node.term = node := by
  have sameVariants : (ofTerm node.term).variants = node.variants :=
    VariantSet.eq_of_mem_iff (mem_variants_ofTerm node.term)
  calc ofTerm node.term = ⟨node.name, (ofTerm node.term).variants⟩ := rfl
    _ = node := by rw [sameVariants]

end Node

/-- The selector that names all nodes of a context with all their variants. -/
def selector (context : Context) : Selector :=
  ⟨context.ancestors.map Node.term, context.subject.term⟩

theorem terms_selector (context : Context) :
    context.selector.terms = context.nodes.map Node.term := by
  rw [nodes, List.map_append]
  rfl

theorem nodes_ofSelector (selector : Selector) :
    (ofSelector selector).nodes = selector.terms.map Node.ofTerm := by
  rw [Selector.terms, List.map_append]
  rfl

theorem ofSelector_selector (context : Context) : ofSelector context.selector = context := by
  obtain ⟨ancestors, subject⟩ := context
  rw [ofSelector, selector, List.map_map, Node.ofTerm_term]
  congr
  exact List.map_id'' Node.ofTerm_term ancestors

theorem toText_cons (node subject : Node) (inside : List Node) :
    toText ⟨node :: inside, subject⟩ = node.toText ++ " " ++ toText ⟨inside, subject⟩ := by
  rw [toText, List.map_cons, String.join_cons, String.append_assoc]
  rfl

/-- A context is written like the selector that names its nodes. -/
theorem toText_selector (context : Context) : context.selector.toText = context.toText := by
  obtain ⟨ancestors, subject⟩ := context
  rw [Selector.toText, terms_selector, nodes, List.map_map]
  induction ancestors with
  | nil => rfl
  | cons node inside ih =>
      have nonempty : (inside ++ [subject]).map (Term.toText ∘ Node.term) ≠ [] := by simp
      rw [List.cons_append, List.map_cons, String.intercalate_cons_of_ne_nil nonempty, ih,
        toText_cons]
      rfl

/-! ### Reading -/

theorem parse_eq_ok_iff (text : String) (context : Context) :
    parse text = .ok context ↔
      ∃ selector, Selector.parse text = .ok selector ∧ ofSelector selector = context := by
  unfold parse
  cases Selector.parse text with
  | error cause => simp
  | ok selector => simp

theorem parse_eq_error_iff (text : String) (problem : StyleError) :
    parse text = .error problem ↔
      ∃ cause, Selector.parse text = .error cause ∧ problem = .context text cause := by
  unfold parse
  cases Selector.parse text with
  | error cause => simp [eq_comm]
  | ok selector => simp

theorem describes_ofTerm (term : Term) : term.Describes (Node.ofTerm term) :=
  ⟨rfl, fun variant listed => (Node.mem_variants_ofTerm term variant).mpr listed⟩

/-- Each term takes the node of its own. -/
theorem matches_ofSelector (selector : Selector) :
    selector.matches (ofSelector selector) = true := by
  rw [Selector.matches_iff_sublistForall₂]
  refine ⟨describes_ofTerm selector.anchor, List.sublistForall₂_iff.mpr ?_⟩
  refine ⟨(ofSelector selector).ancestors, ?_, List.Sublist.refl _⟩
  exact List.forall₂_map_right_iff.mpr
    (List.forall₂_same.mpr fun term _ => describes_ofTerm term)

/-! ### Reading what was written -/

/-- Text that can be read back as the name or a variant of the node. -/
def Node.HasWords (node : Node) : Prop :=
  IsWord node.name ∧ ∀ variant ∈ node.variants.members, IsWord variant

theorem Node.hasWords_ofTerm {term : Term} (plain : term.HasWords) : (ofTerm term).HasWords := by
  refine ⟨plain.name, ?_⟩
  intro variant present
  exact plain.variants variant ((mem_variants_ofTerm term variant).mp present)

theorem parse_toText_iff (context : Context) :
    parse context.toText = .ok context ↔ ∀ node ∈ context.nodes, node.HasWords := by
  constructor
  · intro readBack node present
    obtain ⟨selector, read, rfl⟩ := (parse_eq_ok_iff _ _).mp readBack
    rw [nodes_ofSelector] at present
    obtain ⟨term, listed, rfl⟩ := List.mem_map.mp present
    exact Node.hasWords_ofTerm (Selector.hasWords_of_parse read term listed)
  · intro plain
    have plainTerms : ∀ term ∈ context.selector.terms, term.HasWords := by
      intro term listed
      rw [terms_selector] at listed
      obtain ⟨node, present, rfl⟩ := List.mem_map.mp listed
      exact ⟨(plain node present).1, (plain node present).2⟩
    have read := Selector.parse_toText_of_hasWords plainTerms
    rw [toText_selector] at read
    exact (parse_eq_ok_iff _ _).mpr ⟨context.selector, read, ofSelector_selector context⟩

/-- A path is rejected exactly if it is rejected as a selector, for the same cause. Otherwise the
selector matches the context, whose nodes have the names and the variants of the terms, and the
context reads back from its text. Contexts at large do exactly if all their names and variants are
words. -/
theorem text_reads_as_selector_and_context :
    (∀ text problem, parse text = .error problem ↔
      ∃ cause, Selector.parse text = .error cause ∧ problem = .context text cause) ∧
    (∀ text selector, Selector.parse text = .ok selector →
      ∃ context, parse text = .ok context ∧ selector.matches context = true ∧
        List.Forall₂ (fun term node => node.name = term.name ∧
            ∀ variant, variant ∈ node.variants.members ↔ variant ∈ term.variants)
          selector.terms context.nodes ∧
        parse context.toText = .ok context) ∧
    ∀ context : Context, parse context.toText = .ok context ↔
      ∀ node ∈ context.nodes,
        IsWord node.name ∧ ∀ variant ∈ node.variants.members, IsWord variant := by
  refine ⟨parse_eq_error_iff, ?_, parse_toText_iff⟩
  intro text selector read
  refine ⟨ofSelector selector, (parse_eq_ok_iff text _).mpr ⟨selector, read, rfl⟩,
    matches_ofSelector selector, ?_, ?_⟩
  · rw [nodes_ofSelector, List.forall₂_map_right_iff, List.forall₂_same]
    exact fun term _ => ⟨rfl, Node.mem_variants_ofTerm term⟩
  · rw [parse_toText_iff, nodes_ofSelector]
    intro node present
    obtain ⟨term, listed, rfl⟩ := List.mem_map.mp present
    exact Node.hasWords_ofTerm (Selector.hasWords_of_parse read term listed)

/-- Variants are written in ascending order and once each. -/
example : (ofSelector ⟨[], ⟨"Tab", ["wide", "open", "wide"]⟩⟩).toText = "Tab.open.wide" := by
  decide

end Context

end Cascade
