import Cascade.Proofs.JsonText
import Cascade.Proofs.ValueParts
import Cascade.Value.Coding
set_option autoImplicit false

/-! Values as JSON text. No kind of value that is tried early takes what a later one wrote, and the
entries of a map keep their order. Main statement: a value without floating-point numbers reads back
from its text in every format that writes compact JSON and reads it, if it does not nest too
deep. -/

namespace Cascade

namespace Value

/-! ### Lists and maps, part by part -/

theorem encodeItems_eq_map (items : List Value) : encodeItems items = items.map encode := by
  induction items with
  | nil => rfl
  | cons item rest ih => rw [encodeItems, ih, List.map_cons]

theorem encodeEntries_eq_map (entries : List (String × Value)) :
    encodeEntries entries = entries.map fun entry => (entry.1, encode entry.2) := by
  induction entries with
  | nil => rfl
  | cons entry rest ih => rw [encodeEntries, ih, List.map_cons]

/-! ### The kind that fits -/

theorem decode_integer (number : Int) : decode (.integer number) = some
    (if Int64.minValue.toInt ≤ number ∧ number ≤ Int64.maxValue.toInt then
      .int (Int64.ofInt number) else .float (Binary64.ofInt number)) := by
  have tried : decode (.integer number) =
      (int? (.integer number) <|> some (.float (Binary64.ofInt number))) := rfl
  simp only [tried, int?]
  split
  · rfl
  · rfl

theorem decode_array (items : List Document) :
    decode (.array items) = (decodeItems items).map .list := by
  rw [decode]
  cases decodeItems items with
  | none => rfl
  | some found => rfl

theorem decode_object (members : List (String × Document)) :
    decode (.object members) = (decodeMembers ∅ members).map .map := by
  rw [decode]
  cases decodeMembers ∅ members with
  | none => rfl
  | some found => rfl

mutual

/-- Reading is one more way to build values, and none that repeats a key. -/
theorem built_of_decode :
    (document : Document) → ∀ value ∈ decode document, Built value
  | .null => by
      rintro value ⟨⟩
      exact .null
  | .bool truth => by
      rintro value ⟨⟩
      exact .bool truth
  | .integer number => by
      intro value read
      rw [decode_integer] at read
      cases read
      split
      · exact .int _
      · exact .float _
  | .float number => by
      rintro value ⟨⟩
      exact .float number
  | .text text => by
      rintro value ⟨⟩
      exact .str text
  | .array items => by
      intro value read
      rw [decode_array] at read
      obtain ⟨found, readItems, rfl⟩ := Option.map_eq_some_iff.mp read
      exact .list (built_of_decodeItems items _ readItems)
  | .object members => by
      intro value read
      rw [decode_object] at read
      obtain ⟨found, readMembers, rfl⟩ := Option.map_eq_some_iff.mp read
      exact built_of_decodeMembers members _ .empty found readMembers

theorem built_of_decodeItems : (items : List Document) →
    ∀ values ∈ decodeItems items, ∀ value ∈ values, Built value
  | [] => by
      rintro values ⟨⟩
      exact List.forall_mem_nil _
  | item :: rest => by
      intro values read
      obtain ⟨first, readFirst, read⟩ := Option.bind_eq_some_iff.mp read
      obtain ⟨others, readOthers, made⟩ := Option.bind_eq_some_iff.mp read
      cases made
      exact List.forall_mem_cons.mpr
        ⟨built_of_decode item first readFirst, built_of_decodeItems rest others readOthers⟩

theorem built_of_decodeMembers : (members : List (String × Document)) →
    ∀ fields : PropMap, Built (.map fields) → ∀ found ∈ decodeMembers fields members,
      Built (.map found)
  | [] => by
      rintro fields built _ ⟨⟩
      exact built
  | (key, document) :: rest => by
      intro fields built found read
      obtain ⟨value, readValue, read⟩ := Option.bind_eq_some_iff.mp read
      have part := built_of_decode document value readValue
      exact built_of_decodeMembers rest _ (built.insert key part) found read

end

/-! ### Documents and back -/

/-- The document of a value nests as deep as the value does. -/
theorem plain_encode {value : Value} {depth : Nat} (noFloats : value.floats = [])
    (shallow : value.nesting ≤ depth) : Json.Plain depth value.encode := by
  induction value using byParts generalizing depth with
  | null => exact .null depth
  | bool truth => exact .bool depth truth
  | int number =>
      exact .integer depth number.le_toInt (Int.lt_trans number.toInt_lt (by decide))
  | float number => cases noFloats
  | str text => exact .text depth text
  | list items ih =>
      cases depth with
      | zero => exact absurd shallow (Nat.not_succ_le_zero _)
      | succ depth =>
          rw [floats_list, List.flatMap_eq_nil_iff] at noFloats
          rw [nesting_list_le_iff] at shallow
          rw [encode, encodeItems_eq_map]
          refine .array (List.forall_mem_map.mpr fun item listed => ?_)
          exact ih item listed (noFloats item listed) (shallow item listed)
  | map fields ih =>
      cases depth with
      | zero => exact absurd shallow (Nat.not_succ_le_zero _)
      | succ depth =>
          rw [floats_map, List.flatMap_eq_nil_iff] at noFloats
          rw [nesting_map_le_iff] at shallow
          rw [encode, encodeEntries_eq_map]
          refine .object (List.forall_mem_map.mpr fun entry present => ?_)
          exact ih entry present (noFloats entry present) (shallow entry present)

theorem decodeItems_encodeItems {items : List Value}
    (each : ∀ item ∈ items, decode item.encode = some item) :
    decodeItems (encodeItems items) = some items := by
  induction items with
  | nil => rfl
  | cons item rest ih =>
      obtain ⟨first, others⟩ := List.forall_mem_cons.mp each
      rw [encodeItems, decodeItems, first, ih others]
      rfl

theorem decodeMembers_encodeEntries {entries : List (String × Value)}
    (each : ∀ entry ∈ entries, decode entry.2.encode = some entry.2) (fields : PropMap) :
    decodeMembers fields (encodeEntries entries) =
      some (entries.foldl (fun map entry => map.insert entry.1 entry.2) fields) := by
  induction entries generalizing fields with
  | nil => rfl
  | cons entry rest ih =>
      obtain ⟨first, others⟩ := List.forall_mem_cons.mp each
      rw [encodeEntries, decodeMembers, first, List.foldl_cons]
      exact ih others _

/-- A value is the value of its own document, whether it has floating-point numbers or not. -/
theorem decode_encode {value : Value} (wellKeyed : WellKeyed value) :
    decode value.encode = some value := by
  induction wellKeyed with
  | null => rfl
  | bool truth => rfl
  | int number =>
      rw [encode, decode_integer, if_pos ⟨number.minValue_le_toInt, number.toInt_le⟩,
        Int64.ofInt_toInt]
  | float number => rfl
  | str text => rfl
  | list each ih => rw [encode, decode_array, decodeItems_encodeItems ih, Option.map_some]
  | @map fields distinct each ih =>
      have inserted : decodeMembers ∅ (encodeEntries fields.entries) =
          some (.ofList fields.entries) := decodeMembers_encodeEntries ih ∅
      rw [encode, decode_object, inserted, OrderedMap.ofList_entries distinct, Option.map_some]

/-- Values without floating-point numbers that nest at most 127 deep are written, and read back from
their text as they are, and maps of props as maps of props. Of the format it is only assumed that it
writes compact JSON, and that it reads what that spells. -/
theorem json_text_reads_back (format : Format) (writes : Json.WritesCompactly format)
    (reads : Json.ReadsInOrder format) :
    (∀ value : Value, value.Built → value.floats = [] → value.nesting ≤ 127 →
      ∃ text, value.toText format = .ok text ∧ ofText format text = .ok value) ∧
    ∀ map : PropMap, (Value.map map).Built → (Value.map map).floats = [] →
      (Value.map map).nesting ≤ 127 →
      ∃ text, map.toText format = .ok text ∧ PropMap.ofText format text = .ok map := by
  have written : ∀ value : Value, value.floats = [] → value.nesting ≤ 127 →
      ∃ text, value.toText format = .ok text ∧ format.read text = .ok value.encode := by
    intro value noFloats shallow
    have plain := plain_encode noFloats shallow
    obtain ⟨text, written, spelled⟩ := writes 127 _ plain
    exact ⟨text, written, reads _ text plain spelled⟩
  constructor
  · intro value built noFloats shallow
    obtain ⟨text, written, read⟩ := written value noFloats shallow
    refine ⟨text, written, ?_⟩
    simp only [ofText, Format.load, read, decode_encode built.wellKeyed]
  · intro map built noFloats shallow
    obtain ⟨text, written, read⟩ := written (.map map) noFloats shallow
    have same := decode_encode built.wellKeyed
    rw [encode, decode_object] at same
    obtain ⟨found, inserted, isMap⟩ := Option.map_eq_some_iff.mp same
    cases isMap
    refine ⟨text, written, ?_⟩
    rw [encode] at read
    simp only [PropMap.ofText, PropMap.decode, Format.load, read, inserted]

/-- Props with a text that needs escapes, and with lists and maps inside of each other. -/
def tabProps : PropMap :=
  .ofList [("text", .str "\"Tab\"\n"), ("stops", .list [.int (-4), .null, .map ∅])]

theorem built_tabProps : Built (.map tabProps) := by
  have stops : ∀ item ∈ [Value.int (-4), .null, .map ∅], Built item :=
    List.forall_mem_cons.mpr ⟨.int (-4), List.forall_mem_cons.mpr ⟨.null,
      List.forall_mem_singleton.mpr .empty⟩⟩
  exact built_ofList
    (List.forall_mem_cons.mpr ⟨.str _, List.forall_mem_singleton.mpr (.list stops)⟩)

def tabText : String := "\x7b\"text\":\"\\\"Tab\\\"\\n\",\"stops\":[-4,null,\x7b\x7d]\x7d"

/-- The format of this library is one that writes and reads compact JSON. -/
theorem tabProps_read_back :
    Json.WritesCompactly Json.format ∧ Json.ReadsInOrder Json.format ∧
    PropMap.toText Json.format tabProps = .ok tabText ∧
    PropMap.ofText Json.format tabText = .ok tabProps := by
  have writes := Json.format_writesCompactly
  have reads := Json.format_readsInOrder
  have isTab : PropMap.toText Json.format tabProps = .ok tabText := by decide +kernel
  obtain ⟨text, isText, read⟩ :=
    (json_text_reads_back Json.format writes reads).2 tabProps built_tabProps rfl (by decide)
  cases isTab.symm.trans isText
  exact ⟨writes, reads, isTab, read⟩

end Value

end Cascade
