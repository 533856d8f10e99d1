import Cascade.Context.Live
import Cascade.Proofs.ContextText
import Mathlib.Data.List.Chain
set_option autoImplicit false

/-! Ways to build a context: at once from its nodes, downwards from the root, upwards from a live
node, or from a text. Main statement: nodes that report the same names and the same sets of variants
have one context, however it is built, and other nodes have another one. -/

namespace Cascade

/-- The variants in the order of the report, with its repetitions. -/
def ReportedVariants.listed : ReportedVariants → List String
  | .none => []
  | .one variant => [variant]
  | .many variants => variants

namespace Context

/-! ### Contexts and their nodes -/

theorem nodes_injective {context other : Context} (same : context.nodes = other.nodes) :
    context = other := by
  obtain ⟨ancestors, subject⟩ := context
  obtain ⟨otherAncestors, otherSubject⟩ := other
  obtain ⟨sameAncestors, sameSubject⟩ := List.append_inj' same rfl
  cases sameAncestors
  cases sameSubject
  rfl

theorem length_nodes (context : Context) : context.nodes.length = context.depth :=
  List.length_append

/-- The context of the first node as a root, then of each next one as a child of the one before. -/
def descend : List Node → Option Context
  | [] => none
  | root :: below => some (below.foldl child (ofRoot root))

theorem nodes_foldl_child (context : Context) (below : List Node) :
    (below.foldl child context).nodes = context.nodes ++ below := by
  induction below generalizing context with
  | nil => exact (List.append_nil _).symm
  | cons next rest ih =>
      rw [List.foldl_cons, ih]
      exact List.append_assoc context.nodes [next] rest

theorem descend_nodes (context : Context) : descend context.nodes = some context := by
  cases split : context.nodes with
  | nil => exact absurd split (List.append_ne_nil_of_right_ne_nil _ (List.cons_ne_nil _ _))
  | cons root below =>
      refine congrArg some (nodes_injective ?_)
      rw [nodes_foldl_child, split]
      rfl

/-! ### Reports of nodes -/

/-- What is told of a node: its name, and its variants in one of their forms. -/
structure Report where
  name : String
  variants : ReportedVariants

namespace Report

def node (report : Report) : Node := .ofReported report.name report.variants

def term (report : Report) : Term := ⟨report.name, report.variants.listed⟩

theorem node_eq (report : Report) : report.node = Node.ofTerm report.term := by
  obtain ⟨name, variants⟩ := report
  cases variants <;> rfl

theorem name_node (report : Report) : report.node.name = report.name := by
  rw [node_eq]
  rfl

theorem mem_variants_node (report : Report) (variant : String) :
    variant ∈ report.node.variants.members ↔ variant ∈ report.variants.listed := by
  rw [node_eq]
  exact Node.mem_variants_ofTerm report.term variant

/-- Of the variants only the set counts. -/
theorem node_eq_node_iff (report other : Report) :
    report.node = other.node ↔ report.name = other.name ∧
      ∀ variant, variant ∈ report.variants.listed ↔ variant ∈ other.variants.listed := by
  simp only [← name_node, ← mem_variants_node]
  constructor
  · intro same
    rw [same]
    exact ⟨rfl, fun variant => Iff.rfl⟩
  · rintro ⟨sameName, sameMembers⟩
    have sameVariants := VariantSet.eq_of_mem_iff sameMembers
    calc report.node = ⟨report.node.name, report.node.variants⟩ := rfl
      _ = other.node := by rw [sameName, sameVariants]

end Report

/-- The context of the nodes that are reported, the subject last. -/
def ofReports (outer : List Report) (subject : Report) : Context :=
  ⟨outer.map Report.node, subject.node⟩

theorem nodes_ofReports (outer : List Report) (subject : Report) :
    (ofReports outer subject).nodes = (outer ++ [subject]).map Report.node := by
  rw [List.map_append]
  rfl

theorem ofReports_eq_iff (outer others : List Report) (subject other : Report) :
    ofReports outer subject = ofReports others other ↔
      List.Forall₂ (fun left right => left.name = right.name ∧
        ∀ variant, variant ∈ left.variants.listed ↔ variant ∈ right.variants.listed)
        (outer ++ [subject]) (others ++ [other]) := by
  have sameNodes : ofReports outer subject = ofReports others other ↔
      (outer ++ [subject]).map Report.node = (others ++ [other]).map Report.node := by
    rw [← nodes_ofReports, ← nodes_ofReports]
    exact ⟨congrArg nodes, nodes_injective⟩
  rw [sameNodes, ← List.forall₂_eq_eq_eq, List.forall₂_map_left_iff, List.forall₂_map_right_iff]
  simp only [Report.node_eq_node_iff]

/-! ### Live nodes -/

section Live

variable {ν : Type} [LiveNode ν]

/-- What a live node reports. -/
def Report.ofLive (live : ν) : Report := ⟨LiveNode.name live, LiveNode.variants live⟩

/-- Live nodes from a root on, each the parent of the next one. -/
structure Lineage (line : List ν) : Prop where
  root : ∀ first ∈ line.head?, LiveNode.parent? first = none
  links : line.IsChain fun parent live => LiveNode.parent? live = some parent

theorem pushAncestors_eq (pushed : List Node) (live : ν) : pushAncestors pushed live =
    match LiveNode.parent? live with
    | none => pushed
    | some parent => pushAncestors (pushed ++ [Node.ofLive parent]) parent := by
  rw [pushAncestors]
  cases LiveNode.parent? live <;> rfl

/-- The walk meets the nearest node first. -/
theorem pushAncestors_lineage {above : List ν} {live : ν} (lineage : Lineage (above ++ [live]))
    (pushed : List Node) :
    pushAncestors pushed live = pushed ++ (above.map Node.ofLive).reverse := by
  induction above using List.reverseRecOn generalizing live pushed with
  | nil =>
      rw [pushAncestors_eq, lineage.root live rfl]
      exact (List.append_nil pushed).symm
  | append_singleton above parent ih =>
      obtain ⟨links, _, joint⟩ := List.isChain_append.mp lineage.links
      have isParent : LiveNode.parent? live = some parent :=
        joint parent (List.getLast?_concat) live rfl
      have earlier : Lineage (above ++ [parent]) := by
        refine ⟨?_, links⟩
        intro first isFirst
        apply lineage.root first
        rw [List.head?_append, Option.mem_def.mp isFirst]
        rfl
      rw [pushAncestors_eq, isParent, List.map_append, List.reverse_append]
      exact (ih earlier _).trans (List.append_assoc pushed [Node.ofLive parent] _)

theorem ofLive_lineage {above : List ν} {live : ν} (lineage : Lineage (above ++ [live])) :
    ofLive live = ofReports (above.map Report.ofLive) (Report.ofLive live) := by
  rw [ofLive, pushAncestors_lineage lineage, List.nil_append, List.reverse_reverse, ofReports,
    List.map_map]
  rfl

end Live

/-- The linked node that reports what is told, below the given one, if there is one. -/
def linked (above : Option LinkedNode) (report : Report) : LinkedNode :=
  match above with
  | none => .root report.name report.variants
  | some parent => .child parent report.name report.variants

theorem parent?_linked (above : Option LinkedNode) (report : Report) :
    LiveNode.parent? (linked above report) = above := by
  cases above <;> rfl

theorem ofLive_linked (above : Option LinkedNode) (report : Report) :
    Report.ofLive (linked above report) = report := by
  cases above <;> rfl

/-- Linked nodes for one report after the other, each below the one before it. -/
def linkedBelow (above : Option LinkedNode) : List Report → List LinkedNode
  | [] => []
  | report :: rest => linked above report :: linkedBelow (some (linked above report)) rest

theorem parent?_linkedBelow (above : Option LinkedNode) (reports : List Report) :
    ∀ first ∈ (linkedBelow above reports).head?, LiveNode.parent? first = above := by
  intro first isFirst
  cases reports with
  | nil => cases isFirst
  | cons report rest =>
      cases isFirst
      exact parent?_linked above report

theorem isChain_linkedBelow (above : Option LinkedNode) (reports : List Report) :
    (linkedBelow above reports).IsChain fun parent live => LiveNode.parent? live = some parent := by
  induction reports generalizing above with
  | nil => exact .nil
  | cons report rest ih => exact List.isChain_cons.mpr ⟨parent?_linkedBelow _ rest, ih _⟩

theorem map_ofLive_linkedBelow (above : Option LinkedNode) (reports : List Report) :
    (linkedBelow above reports).map Report.ofLive = reports := by
  induction reports generalizing above with
  | nil => rfl
  | cons report rest ih => rw [linkedBelow, List.map_cons, ofLive_linked, ih]

/-- Whatever is reported, some live nodes report it. -/
theorem exists_lineage (outer : List Report) (subject : Report) :
    ∃ (above : List LinkedNode) (live : LinkedNode), Lineage (above ++ [live]) ∧
      (above ++ [live]).map Report.ofLive = outer ++ [subject] := by
  have told := map_ofLive_linkedBelow none (outer ++ [subject])
  obtain ⟨above, last, split, _, isLast⟩ := List.map_eq_append_iff.mp told
  obtain ⟨live, rfl, _⟩ := List.map_eq_singleton_iff.mp isLast
  refine ⟨above, live, ⟨?_, ?_⟩, ?_⟩
  · rw [← split]
    exact parent?_linkedBelow none _
  · rw [← split]
    exact isChain_linkedBelow none _
  · rw [← split]
    exact told

/-! ### Texts -/

theorem parse_of_reports {outer : List Report} {subject : Report}
    (plain : ∀ report ∈ outer ++ [subject],
      IsWord report.name ∧ ∀ variant ∈ report.variants.listed, IsWord variant)
    {text : String}
    (spaced : Text.Spaced ((outer ++ [subject]).map fun report => report.term.toText.toList)
      text.toList) :
    parse text = .ok (ofReports outer subject) := by
  let selector : Selector := ⟨outer.map Report.term, subject.term⟩
  have terms : selector.terms = (outer ++ [subject]).map Report.term := by
    rw [List.map_append]
    rfl
  have read : Selector.parse text = .ok selector := by
    apply Selector.parse_of_spaced
    · intro term listed
      rw [terms] at listed
      obtain ⟨report, told, rfl⟩ := List.mem_map.mp listed
      exact ⟨(plain report told).1, (plain report told).2⟩
    · rw [terms, List.map_map]
      exact spaced
  refine (parse_eq_ok_iff text _).mpr ⟨selector, read, nodes_injective ?_⟩
  rw [nodes_ofSelector, terms, nodes_ofReports, List.map_map]
  exact List.map_congr_left fun report _ => report.node_eq.symm

/-- Nodes that are reported, the subject last, have one context: it is put together from the nodes
at once, or reached from the root by one child after the other, or read off live nodes that report
the same, of which there are some, or, if all names and variants are words, read from the nodes as
they are written with white space between them. The context has the nodes in their order, and two
reports have one context exactly if the names and the sets of variants agree, node by node. -/
theorem every_way_builds_one_context :
    (∀ (outer : List Report) (subject : Report),
      (ofReports outer subject).nodes = (outer ++ [subject]).map Report.node ∧
      (ofReports outer subject).depth = (outer ++ [subject]).length ∧
      descend ((outer ++ [subject]).map Report.node) = some (ofReports outer subject) ∧
      (∀ (ν : Type) [LiveNode ν] (above : List ν) (live : ν), Lineage (above ++ [live]) →
        (above ++ [live]).map Report.ofLive = outer ++ [subject] →
        ofLive live = ofReports outer subject) ∧
      (∃ (above : List LinkedNode) (live : LinkedNode), Lineage (above ++ [live]) ∧
        (above ++ [live]).map Report.ofLive = outer ++ [subject]) ∧
      ((∀ report ∈ outer ++ [subject],
          IsWord report.name ∧ ∀ variant ∈ report.variants.listed, IsWord variant) →
        ∀ text : String,
          Text.Spaced ((outer ++ [subject]).map fun report => report.term.toText.toList)
            text.toList →
          parse text = .ok (ofReports outer subject))) ∧
    ∀ (outer others : List Report) (subject other : Report),
      ofReports outer subject = ofReports others other ↔
        List.Forall₂ (fun left right => left.name = right.name ∧
          ∀ variant, variant ∈ left.variants.listed ↔ variant ∈ right.variants.listed)
          (outer ++ [subject]) (others ++ [other]) := by
  refine ⟨?_, ofReports_eq_iff⟩
  intro outer subject
  refine ⟨nodes_ofReports outer subject, ?_, ?_, ?_, exists_lineage outer subject,
    fun plain text => parse_of_reports plain⟩
  · rw [← length_nodes, nodes_ofReports, List.length_map]
  · rw [← nodes_ofReports]
    exact descend_nodes _
  · intro ν _ above live lineage told
    rw [List.map_append] at told
    obtain ⟨sameOuter, sameSubject⟩ := List.append_inj' told rfl
    rw [ofLive_lineage lineage, sameOuter]
    cases sameSubject
    rfl

example : ofReports [] ⟨"Tab", .one "open"⟩ = ofReports [] ⟨"Tab", .many ["open", "open"]⟩ := by
  decide

end Context

end Cascade
