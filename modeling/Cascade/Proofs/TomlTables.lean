import Cascade.Proofs.TomlIntegers
import Cascade.Proofs.TomlLines
set_option autoImplicit false

/-! Flat tables as TOML texts. Main statements: the format writes every flat table, reads it back,
and finds no integers that 64 bits do not hold. -/

namespace Cascade.Toml

/-! ### Integers -/

theorem itemDocuments_eq_map (items : List Toml) : itemDocuments items = items.map toDocument := by
  induction items with
  | nil => rfl
  | cons item rest ih => rw [itemDocuments, ih, List.map_cons]

theorem entryDocuments_eq_map (entries : List (String × Toml)) :
    entryDocuments entries = entries.map fun entry => (entry.1, toDocument entry.2) := by
  induction entries with
  | nil => rfl
  | cons entry rest ih => rw [entryDocuments, ih, List.map_cons]

theorem fitsWord_toInt (number : Int64) : FitsWord number.toInt :=
  ⟨number.minValue_le_toInt, number.toInt_le⟩

theorem fitsWord_of_occurs {number : Int} {document : Document} (occurs : Occurs number document) :
    ∀ toml, toDocument toml = document → FitsWord number := by
  induction occurs with
  | here =>
      intro toml same
      cases toml with
      | integer word =>
          cases same
          exact fitsWord_toInt word
      | _ => cases same
  | item listed inside ih =>
      intro toml same
      cases toml with
      | array items =>
          cases same
          rw [itemDocuments_eq_map] at listed
          obtain ⟨part, _, isItem⟩ := List.mem_map.mp listed
          exact ih part isItem
      | _ => cases same
  | member listed inside ih =>
      intro toml same
      cases toml with
      | table entries =>
          cases same
          rw [entryDocuments_eq_map] at listed
          obtain ⟨entry, _, rfl⟩ := List.mem_map.mp listed
          exact ih entry.2 rfl
      | moment content =>
          -- A date is an object as well, but there is only its text inside.
          cases same
          cases List.mem_singleton.mp listed
          exact ih (.text content) rfl
      | _ => cases same

theorem format_readsWords : ReadsWords format := by
  intro text document read number occurs
  cases found : Table.ofText? text with
  | none =>
      simp only [format, found] at read
      cases read
  | some table =>
      simp only [format, found] at read
      cases read
      exact fitsWord_of_occurs occurs (.table table) rfl

/-! ### Lines -/

/-- The value of a truth value or an integer. -/
def scalarOf : Document → Toml
  | .bool truth => .bool truth
  | .integer number => .integer (Int64.ofInt number)
  | _ => default

/-- The line of a member of a flat table. -/
def lineOf (member : String × Document) : Line :=
  ⟨member.1.toList, (word? member.2).getD [], scalarOf member.2⟩

theorem toDocument_scalarOf {document : Document} (scalar : IsScalar document) :
    toDocument (scalarOf document) = document := by
  cases scalar with
  | bool truth => rfl
  | @integer number fits =>
      have same : (Int64.ofInt number).toInt = number := Int64.toInt_ofInt_of_le fits.1 (by
        have greatest : Int64.maxValue.toInt = 2 ^ 63 - 1 := rfl
        have high := fits.2
        omega)
      rw [scalarOf, toDocument, same]

/-- The word of a scalar is read as the scalar. -/
theorem word?_of_scalar {document : Document} (scalar : IsScalar document) :
    ∃ word, word? document = some word ∧ word ≠ [] ∧
      (∀ char ∈ word, Reader.isScalarChar char = true) ∧
      Scalar.ofWord? word = some (scalarOf document) := by
  cases scalar with
  | bool truth =>
      refine ⟨_, rfl, ?_⟩
      cases truth with
      | false => exact ⟨List.cons_ne_nil _ _, List.all_eq_true.mp rfl, rfl⟩
      | true => exact ⟨List.cons_ne_nil _ _, List.all_eq_true.mp rfl, rfl⟩
  | @integer number fits =>
      refine ⟨Text.decimal number, if_pos fits, Text.decimal_ne_nil number, ?_,
        Scalar.ofWord?_decimal fits⟩
      intro char inside
      rcases Text.mem_decimal inside with isDigit | rfl
      · simp [Reader.isScalarChar, Char.isAlphanum, isDigit]
      · decide

theorem plain_lineOf {member : String × Document} (bare : isBare member.1 = true)
    (scalar : IsScalar member.2) : (lineOf member).Plain := by
  obtain ⟨nonempty, keyChars⟩ := (Bool.and_eq_true _ _).mp bare
  obtain ⟨word, isWord, wordNonempty, wordChars, reads⟩ := word?_of_scalar scalar
  have same : (lineOf member).word = word := by rw [lineOf, isWord, Option.getD_some]
  refine ⟨?_, List.all_eq_true.mp keyChars, same ▸ wordNonempty, same ▸ wordChars, same ▸ reads⟩
  exact List.isEmpty_eq_false_iff.mp ((Bool.not_eq_true' _).mp nonempty)

theorem name_lineOf (member : String × Document) : (lineOf member).name = member.1 :=
  String.ofList_toList

theorem line?_eq {member : String × Document} (bare : isBare member.1 = true)
    (scalar : IsScalar member.2) : line? member = some (lineOf member).text := by
  obtain ⟨word, isWord, _⟩ := word?_of_scalar scalar
  rw [line?, if_pos bare, Line.text, lineOf, isWord, Option.map_some, Option.getD_some]

theorem lines?_eq {members : List (String × Document)}
    (bare : ∀ member ∈ members, isBare member.1 = true)
    (scalars : ∀ member ∈ members, IsScalar member.2) :
    lines? members = some ((members.map lineOf).flatMap Line.text) := by
  induction members with
  | nil => rfl
  | cons member rest ih =>
      obtain ⟨bareHere, bareRest⟩ := List.forall_mem_cons.mp bare
      obtain ⟨scalarHere, scalarRest⟩ := List.forall_mem_cons.mp scalars
      rw [lines?, line?_eq bareHere scalarHere, ih bareRest scalarRest]
      rfl

/-! ### Tables -/

variable {members : List (String × Document)}

theorem write_flat (flat : IsFlat members) : format.write (.object members) =
    .ok (String.ofList ((members.map lineOf).flatMap Line.text)) := by
  simp only [format, lines?_eq flat.bare flat.scalars]

theorem format_writesTables : WritesTables format :=
  fun _ flat => ⟨_, write_flat flat⟩

/-- The members of a flat table are found again in their order. -/
theorem read_flat (flat : IsFlat members) {text : String}
    (written : format.write (.object members) = .ok text) :
    format.read text = .ok (.object members) := by
  rw [write_flat flat] at written
  cases written
  have plain : ∀ line ∈ members.map lineOf, line.Plain := List.forall_mem_map.mpr
    fun member listed => plain_lineOf (flat.bare member listed) (flat.scalars member listed)
  have names : (members.map lineOf).map Line.name = members.map Prod.fst := by
    rw [List.map_map]
    exact List.map_congr_left fun member _ => name_lineOf member
  have distinct : ((members.map lineOf).map Line.name).Nodup := names ▸ flat.distinct
  have found := ofText?_lines plain distinct String.toList_ofList
  have same : entryDocuments ((members.map lineOf).map fun line => (line.name, line.value)) =
      members := by
    rw [entryDocuments_eq_map, List.map_map, List.map_map]
    refine (List.map_congr_left fun member listed => ?_).trans (List.map_id members)
    exact Prod.ext (name_lineOf member) (toDocument_scalarOf (flat.scalars member listed))
  simp only [format, found, same]

theorem format_readsWritten : ReadsWritten format :=
  fun members _ flat written => ⟨members, read_flat flat written, List.Perm.refl members⟩

end Cascade.Toml
