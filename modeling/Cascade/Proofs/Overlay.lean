import Cascade.OrderedMap.Lemmas
import Cascade.Rule.Payload
set_option autoImplicit false

/-! A node's own props on top of those of the rules. Main statement: which entries come out, and in
which order. Own entries stay as and where they are, but for a style that is put on top of the style
of the rules. No style gets through among the props of the rules. -/

namespace Cascade

/-- The value under the style key where the rules have a style, by the value that the node has under
that key itself. -/
inductive ComposedStyle (style : PropMap) : Option Value → Value → Prop where
  | alone : ComposedStyle style none (.map style)
  | spliced (items : List Value) :
      ComposedStyle style (some (.list items)) (.list (.map style :: items))
  | paired (own : Value) (noList : own.asList? = none) :
      ComposedStyle style (some own) (.list [.map style, own])

theorem composedStyle_composeStyle (style : PropMap) (own? : Option Value) :
    ComposedStyle style own? (composeStyle style own?) := by
  cases own? with
  | none => exact .alone
  | some own =>
      cases own with
      | list items => exact .spliced items
      | _ => exact .paired _ rfl

namespace ResolvedPayload

/-- What a node with these props takes over from the props of the rules. -/
def taken (payload : ResolvedPayload) (base : PropMap) : List (String × Value) :=
  (payload.props.getD ∅).entries.filter fun entry => entry.1 ≠ styleKey ∧ entry.1 ∉ base.keys

variable {payload : ResolvedPayload} {base : PropMap} {entry : String × Value}

theorem ne_styleKey_of_taken (isTaken : entry ∈ payload.taken base) : entry.1 ≠ styleKey :=
  (of_decide_eq_true (List.mem_filter.mp isTaken).2).1

theorem keysDistinct_plainProps (distinct : (payload.props.getD ∅).KeysDistinct) :
    payload.plainProps.KeysDistinct :=
  List.Nodup.sublist (List.filter_sublist.map Prod.fst) distinct

theorem entries_mergeAbsent_plainProps (base : PropMap)
    (distinct : (payload.props.getD ∅).KeysDistinct) :
    (base.mergeAbsent payload.plainProps).entries = base.entries ++ payload.taken base := by
  rw [OrderedMap.entries_mergeAbsent_of_distinct base (keysDistinct_plainProps distinct),
    plainProps, taken, List.filter_filter]
  congr 1
  apply List.filter_congr
  intro entry _
  rw [Bool.eq_iff_iff, Bool.and_eq_true, decide_eq_true_iff, decide_eq_true_iff,
    decide_eq_true_iff]
  exact and_comm

theorem mem_keys_mergeAbsent_plainProps (base : PropMap)
    (distinct : (payload.props.getD ∅).KeysDistinct) :
    styleKey ∈ (base.mergeAbsent payload.plainProps).keys ↔ styleKey ∈ base.keys := by
  rw [OrderedMap.keys, entries_mergeAbsent_plainProps base distinct, List.map_append,
    List.mem_append]
  constructor
  · rintro (own | isTaken)
    · exact own
    · obtain ⟨entry, inside, same⟩ := List.mem_map.mp isTaken
      exact absurd same (ne_styleKey_of_taken inside)
  · exact .inl

/-- A style goes to the place of the node's own style, or else to the end. -/
theorem entries_insert_styleKey (distinctBase : base.KeysDistinct)
    (distinct : (payload.props.getD ∅).KeysDistinct) (value : Value) :
    ((base.mergeAbsent payload.plainProps).insert styleKey value).entries =
      base.entries.map (fun entry => if entry.1 = styleKey then (styleKey, value) else entry) ++
        payload.taken base ++ if styleKey ∈ base.keys then [] else [(styleKey, value)] := by
  have untouched := OrderedMap.map_replace_of_absent (styleKey, value)
    fun entry (isTaken : entry ∈ payload.taken base) => ne_styleKey_of_taken isTaken
  rw [OrderedMap.entries_insert (distinctBase.mergeAbsent payload.plainProps),
    entries_mergeAbsent_plainProps base distinct, List.map_append, untouched]
  simp only [mem_keys_mergeAbsent_plainProps base distinct]

theorem get?_mergeAbsent_plainProps (payload : ResolvedPayload) (base : PropMap) :
    (base.mergeAbsent payload.plainProps).get? styleKey = base.get? styleKey := by
  have noStyle : payload.plainProps.get? styleKey = none := by
    rw [OrderedMap.get?_eq_none_iff, OrderedMap.keys, plainProps]
    intro inside
    obtain ⟨entry, present, same⟩ := List.mem_map.mp inside
    exact of_decide_eq_true (List.mem_filter.mp present).2 same
  rw [OrderedMap.get?_mergeAbsent, noStyle, Option.or_none]

/-! ### The two ways -/

variable {own : Option PropMap}

theorem mergeOwn_of_no_style (absent : payload.style = none) :
    payload.mergeOwn own = (own.getD ∅).mergeAbsent payload.plainProps := by
  unfold mergeOwn
  simp only [absent]

theorem mergeOwn_of_style {style : PropMap} (present : payload.style = some style) :
    payload.mergeOwn own = ((own.getD ∅).mergeAbsent payload.plainProps).insert styleKey
      (composeStyle style ((own.getD ∅).get? styleKey)) := by
  unfold mergeOwn
  simp only [present]

theorem keysDistinct_mergeOwn (distinctOwn : (own.getD ∅).KeysDistinct) :
    (payload.mergeOwn own).KeysDistinct := by
  have distinctMerged := distinctOwn.mergeAbsent payload.plainProps
  cases held : payload.style with
  | none =>
      rw [mergeOwn_of_no_style held]
      exact distinctMerged
  | some style =>
      rw [mergeOwn_of_style held]
      exact distinctMerged.insert styleKey _

/-- The own entries come first, in their order, then those of the rules' props that are taken over,
in theirs, and last a style that the node does not have itself. Only an own style is changed, and
only where the rules have one, too. -/
theorem own_props_go_on_top (own : Option PropMap) (payload : ResolvedPayload)
    (distinctOwn : (own.getD ∅).KeysDistinct)
    (distinctProps : (payload.props.getD ∅).KeysDistinct) :
    (payload.mergeOwn own).KeysDistinct ∧
    (payload.style = none →
      (payload.mergeOwn own).entries = (own.getD ∅).entries ++ payload.taken (own.getD ∅) ∧
      (payload.mergeOwn own).get? styleKey = (own.getD ∅).get? styleKey) ∧
    ∀ style, payload.style = some style →
      ∃ value, ComposedStyle style ((own.getD ∅).get? styleKey) value ∧
        (payload.mergeOwn own).entries =
          (own.getD ∅).entries.map
              (fun entry => if entry.1 = styleKey then (styleKey, value) else entry) ++
            payload.taken (own.getD ∅) ++
            (if styleKey ∈ (own.getD ∅).keys then [] else [(styleKey, value)]) ∧
        (payload.mergeOwn own).get? styleKey = some value := by
  refine ⟨keysDistinct_mergeOwn distinctOwn, ?_, ?_⟩
  · intro absent
    rw [mergeOwn_of_no_style absent]
    exact ⟨entries_mergeAbsent_plainProps (own.getD ∅) distinctProps,
      payload.get?_mergeAbsent_plainProps (own.getD ∅)⟩
  · intro style present
    rw [mergeOwn_of_style present]
    exact ⟨_, composedStyle_composeStyle style _,
      entries_insert_styleKey distinctOwn distinctProps _, OrderedMap.get?_insert_self _ _ _⟩

end ResolvedPayload

/-! A link with a colour and an empty list of styles of its own. The rules have a style for it, and
a second one in the wrong place. -/

namespace Sample

def linkProps : PropMap := ⟨[("style", .list []), ("color", .str "red")]⟩

def linkStyle : PropMap := ⟨[("weight", .int 700)]⟩

def linkPayload : ResolvedPayload :=
  ⟨some ⟨[("size", .int 12), ("style", .int 7), ("color", .str "blue")]⟩, some linkStyle⟩

end Sample

namespace ResolvedPayload

open Sample (linkProps linkStyle linkPayload)

/-- The list is put on top of the style of the rules, in its place. -/
theorem link_keeps_its_color :
    linkProps.KeysDistinct ∧ (linkPayload.props.getD ∅).KeysDistinct ∧
      (linkPayload.mergeOwn (some linkProps)).entries = [("style", .list [.map linkStyle]),
        ("color", .str "red"), ("size", .int 12)] := by
  have distinctOwn : linkProps.KeysDistinct := by
    unfold OrderedMap.KeysDistinct
    decide
  have distinctProps : (linkPayload.props.getD ∅).KeysDistinct := by
    unfold OrderedMap.KeysDistinct
    decide
  obtain ⟨_, _, withStyle⟩ :=
    own_props_go_on_top (some linkProps) linkPayload distinctOwn distinctProps
  obtain ⟨value, composed, entries, _⟩ := withStyle linkStyle rfl
  have found : linkProps.get? styleKey = some (.list []) := rfl
  rw [Option.getD_some, found] at composed
  cases composed with
  | spliced => exact ⟨distinctOwn, distinctProps, entries⟩
  | paired own noList => cases noList

end ResolvedPayload

end Cascade
