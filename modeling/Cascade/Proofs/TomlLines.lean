import Cascade.OrderedMap.Lemmas
import Cascade.Toml.Format
import Mathlib.Data.List.TakeWhile
set_option autoImplicit false

/-! Flat documents: lines with a bare key and a scalar each. Main statement: such a document is read
as the table that has the keys and the scalars of its lines, in their order. -/

namespace Cascade.Toml

namespace Reader

/-! ### Steps of a reader -/

theorem bind_eq {α β : Type} {first : Reader α} {next : α → Reader β} {text rest : List Char}
    {item : α} (read : first text = some (item, rest)) :
    (first >>= next) text = next item rest := by
  change (first text).bind (fun found => next found.1 found.2) = next item rest
  rw [read, Option.bind_some]

theorem ahead_eq (text : List Char) : ahead text = some (text, text) := rfl

theorem expect_append (start rest : List Char) :
    expect start (start ++ rest) = some ((), rest) := by
  have seen : sees start (start ++ rest) = some (true, start ++ rest) := by
    change some (start.isPrefixOf (start ++ rest), start ++ rest) = _
    rw [List.isPrefixOf_iff_prefix.mpr (List.prefix_append start rest)]
  rw [expect, bind_eq seen]
  change some ((), (start ++ rest).drop start.length) = some ((), rest)
  rw [List.drop_left]

theorem run_append_cons {inRun : Char → Bool} {taken : List Char} {stop : Char} {rest : List Char}
    (inside : ∀ char ∈ taken, inRun char = true) (outside : inRun stop = false) :
    run inRun (taken ++ stop :: rest) = some (taken, stop :: rest) := by
  change some ((taken ++ stop :: rest).takeWhile inRun, (taken ++ stop :: rest).dropWhile inRun) = _
  rw [List.takeWhile_append_of_pos inside, List.dropWhile_append_of_pos inside,
    List.takeWhile_cons_of_neg (Bool.eq_false_iff.mp outside),
    List.dropWhile_cons_of_neg (Bool.eq_false_iff.mp outside), List.append_nil]

theorem repeated_done {α : Type} {step : Reader (Option α)} {text rest : List Char}
    (read : step text = some (none, rest)) : repeated step text = some ([], rest) := by
  rw [repeated, read]

theorem repeated_more {α : Type} {step : Reader (Option α)} {text between rest : List Char}
    {item : α} {items : List α} (read : step text = some (some item, between))
    (shorter : between.length < text.length) (more : repeated step between = some (items, rest)) :
    repeated step text = some (item :: items, rest) := by
  rw [repeated, read]
  simp only [if_pos shorter, more]

/-! ### Where a text opens with a character of some kind -/

/-- The first character of the text is of the kind. -/
def Opens (kind : Char → Bool) (text : List Char) : Prop := ∃ char ∈ text.head?, kind char = true

variable {kind : Char → Bool} {text taken rest : List Char}

theorem opens_append (nonempty : taken ≠ []) (inside : ∀ char ∈ taken, kind char = true) :
    Opens kind (taken ++ rest) := by
  cases taken with
  | nil => exact absurd rfl nonempty
  | cons first others => exact ⟨first, rfl, inside first List.mem_cons_self⟩

theorem Opens.sees_eq (opens : Opens kind text) {start : Char} {more : List Char}
    (outside : kind start = false) : sees (start :: more) text = some (false, text) := by
  obtain ⟨first, isFirst, inside⟩ := opens
  obtain ⟨others, rfl⟩ := List.head?_eq_some_iff.mp isFirst
  have different : (start == first) = false := by
    refine beq_false_of_ne fun same => ?_
    rw [same, inside] at outside
    cases outside
  change some ((start == first && _), first :: others) = _
  rw [different, Bool.false_and]

theorem Opens.spaces_eq (opens : Opens kind text) (noSpace : kind ' ' = false)
    (noTab : kind '\t' = false) : spaces text = some ((), text) := by
  obtain ⟨first, isFirst, inside⟩ := opens
  obtain ⟨others, rfl⟩ := List.head?_eq_some_iff.mp isFirst
  have notSpace : isSpace first ≠ true := by
    intro space
    rcases (Bool.or_eq_true _ _).mp space with isSpace | isTab
    · rw [of_decide_eq_true isSpace, noSpace] at inside
      cases inside
    · rw [of_decide_eq_true isTab, noTab] at inside
      cases inside
  change some ((), (first :: others).dropWhile isSpace) = _
  rw [List.dropWhile_cons_of_neg notSpace]

theorem Opens.seesNewline_eq (opens : Opens kind text) (noFeed : kind '\n' = false)
    (noReturn : kind '\r' = false) : seesNewline text = some (false, text) := by
  rw [seesNewline, bind_eq (opens.sees_eq noFeed), bind_eq (opens.sees_eq noReturn)]
  rfl

theorem Opens.not_isEmpty (opens : Opens kind text) : text.isEmpty = false := by
  obtain ⟨first, isFirst, _⟩ := opens
  obtain ⟨others, rfl⟩ := List.head?_eq_some_iff.mp isFirst
  rfl

end Reader

/-! ### Lines -/

/-- A line of a flat document: a key, and the word that writes a scalar. -/
structure Line where
  key : List Char
  word : List Char
  value : Toml

namespace Line

def text (line : Line) : List Char := line.key ++ (" = ".toList ++ (line.word ++ ['\n']))

/-- The key is bare, and the word stands for the scalar. -/
structure Plain (line : Line) : Prop where
  key_ne_nil : line.key ≠ []
  keyChars : ∀ char ∈ line.key, isKeyChar char = true
  word_ne_nil : line.word ≠ []
  wordChars : ∀ char ∈ line.word, Reader.isScalarChar char = true
  reads : Scalar.ofWord? line.word = some line.value

def name (line : Line) : String := String.ofList line.key

def assignment (line : Line) : Statement := .assign ⟨[], line.name⟩ line.value

end Line

namespace Reader

variable {line : Line} {rest : List Char}

theorem text_append (line : Line) (rest : List Char) :
    line.text ++ rest = line.key ++ ' ' :: '=' :: ' ' :: (line.word ++ '\n' :: rest) := by
  simp [Line.text]

theorem path_line (plain : line.Plain) (rest : List Char) :
    path (line.key ++ ' ' :: '=' :: rest) = some (⟨[], line.name⟩, '=' :: rest) := by
  have opens : Opens isKeyChar (line.key ++ ' ' :: '=' :: rest) :=
    opens_append plain.key_ne_nil plain.keyChars
  have named : keyPart (line.key ++ ' ' :: '=' :: rest) =
      some (line.name, ' ' :: '=' :: rest) := by
    rw [keyPart, bind_eq (opens.sees_eq (by decide)), if_neg Bool.false_ne_true,
      bind_eq (opens.sees_eq (by decide)), if_neg Bool.false_ne_true,
      bind_eq (run_append_cons plain.keyChars (by decide)),
      if_neg (by simpa using plain.key_ne_nil)]
    rfl
  have spaced : spaces (' ' :: '=' :: rest) = some ((), '=' :: rest) := rfl
  have noOther : repeated (do
      if ← sees ['.'] then
        skip 1
        spaces
        let part ← keyPart
        spaces
        return some part
      else return none) ('=' :: rest) = some ([], '=' :: rest) := repeated_done rfl
  rw [path, bind_eq (opens.spaces_eq (by decide) (by decide)), bind_eq named, bind_eq spaced,
    bind_eq noOther]
  rfl

theorem scalar_line (plain : line.Plain) (rest : List Char) :
    scalar (line.word ++ '\n' :: rest) = some (line.value, '\n' :: rest) := by
  -- A newline follows, so that the word is no date with a time behind a space.
  have whole : (pure line.word : Reader (List Char)) ('\n' :: rest) =
      some (line.word, '\n' :: rest) := rfl
  rw [scalar, bind_eq (run_append_cons plain.wordChars (by decide)), bind_eq (ahead_eq _)]
  refine (bind_eq whole).trans ?_
  simp only [plain.reads]
  rfl

theorem value_line (plain : line.Plain) (room : Nat) (rest : List Char) :
    value room (line.word ++ '\n' :: rest) = some (line.value, '\n' :: rest) := by
  have opens : Opens isScalarChar (line.word ++ '\n' :: rest) :=
    opens_append plain.word_ne_nil plain.wordChars
  rw [value, bind_eq (opens.sees_eq (by decide)), if_neg Bool.false_ne_true,
    bind_eq (opens.sees_eq (by decide)), if_neg Bool.false_ne_true,
    bind_eq (opens.sees_eq (by decide)), bind_eq (opens.sees_eq (by decide)), Bool.or_false,
    if_neg Bool.false_ne_true]
  exact scalar_line plain rest

theorem pair_line (plain : line.Plain) (room : Nat) (rest : List Char) :
    pair (value room) (line.text ++ rest) =
      some ((⟨[], line.name⟩, line.value), '\n' :: rest) := by
  have opens : Opens isScalarChar (line.word ++ '\n' :: rest) :=
    opens_append plain.word_ne_nil plain.wordChars
  have spaced : spaces (' ' :: (line.word ++ '\n' :: rest)) =
      some ((), line.word ++ '\n' :: rest) := opens.spaces_eq (by decide) (by decide)
  have equals : expect ['='] ('=' :: ' ' :: (line.word ++ '\n' :: rest)) =
      some ((), ' ' :: (line.word ++ '\n' :: rest)) := expect_append ['='] _
  rw [text_append, pair, bind_eq (path_line plain _), bind_eq equals, bind_eq spaced,
    bind_eq (value_line plain room rest)]
  rfl

theorem statement_line (plain : line.Plain) (rest : List Char) :
    statement (line.text ++ rest) = some (line.assignment, '\n' :: rest) := by
  have opens : Opens isKeyChar (line.text ++ rest) := by
    rw [text_append]
    exact opens_append plain.key_ne_nil plain.keyChars
  rw [statement, bind_eq (opens.sees_eq (by decide)), if_neg Bool.false_ne_true,
    bind_eq (opens.sees_eq (by decide)), if_neg Bool.false_ne_true,
    bind_eq (pair_line plain maxDepth rest)]
  rfl

theorem lineEnd_newline (rest : List Char) : lineEnd ('\n' :: rest) = some ((), rest) := by
  have spaced : spaces ('\n' :: rest) = some ((), '\n' :: rest) := rfl
  have noComment : sees ['#'] ('\n' :: rest) = some (false, '\n' :: rest) := rfl
  rw [lineEnd, bind_eq spaced, bind_eq noComment]
  rfl

/-- The statement of the next line, if the line has one, or nothing at the end of the document. -/
def nextLine : Reader (Option (List Statement)) := do
  spaces
  if (← ahead).isEmpty then return none
  else if (← sees ['#']) || (← seesNewline) then
    lineEnd
    return some []
  else
    let found ← statement
    lineEnd
    return some [found]

theorem statements_eq : statements = do
    let lines ← repeated nextLine
    return lines.flatten := rfl

theorem nextLine_line (plain : line.Plain) (rest : List Char) :
    nextLine (line.text ++ rest) = some (some [line.assignment], rest) := by
  have opens : Opens isKeyChar (line.text ++ rest) := by
    rw [text_append]
    exact opens_append plain.key_ne_nil plain.keyChars
  rw [nextLine, bind_eq (opens.spaces_eq (by decide) (by decide)), bind_eq (ahead_eq _),
    opens.not_isEmpty, if_neg Bool.false_ne_true, bind_eq (opens.sees_eq (by decide)),
    bind_eq (opens.seesNewline_eq (by decide) (by decide)), Bool.or_false,
    if_neg Bool.false_ne_true, bind_eq (statement_line plain rest), bind_eq (lineEnd_newline rest)]
  rfl

theorem repeated_nextLine {lines : List Line} (plain : ∀ line ∈ lines, line.Plain) :
    repeated nextLine (lines.flatMap Line.text) =
      some (lines.map fun line => [line.assignment], []) := by
  induction lines with
  | nil => exact repeated_done rfl
  | cons line rest ih =>
      obtain ⟨plainLine, plainRest⟩ := List.forall_mem_cons.mp plain
      have shorter : (rest.flatMap Line.text).length <
          (line.text ++ rest.flatMap Line.text).length := by
        simp only [Line.text, List.length_append, List.length_cons]
        omega
      exact repeated_more (nextLine_line plainLine _) shorter (ih plainRest)

theorem statements_lines {lines : List Line} (plain : ∀ line ∈ lines, line.Plain) :
    statements (lines.flatMap Line.text) = some (lines.map Line.assignment, []) := by
  have flat : (lines.map fun line => [line.assignment]).flatten = lines.map Line.assignment := by
    rw [← List.flatMap_def, List.map_eq_flatMap]
  rw [statements_eq, bind_eq (repeated_nextLine plain), flat]
  rfl

end Reader

/-! ### Tables -/

/-- A value under a new key goes to the end of the root. -/
theorem take_assignment (line : Line) {root : Parts} (fresh : line.name ∉ root.keys) :
    Assembly.take ⟨root, []⟩ line.assignment =
      some ⟨⟨root.entries ++ [(line.name, .value line.value)]⟩, []⟩ := by
  have absent : ¬root.contains line.name = true := fun present =>
    fresh ((OrderedMap.contains_iff_mem_keys root line.name).mp present)
  have assigned : Parts.assign ⟨[], line.name⟩ line.value .header root =
      some (root.insert line.name (.value line.value)) := by
    simp [Parts.assign, Parts.changeAt, absent]
  have taken : Assembly.take ⟨root, []⟩ line.assignment =
      (Parts.assign ⟨[], line.name⟩ line.value .header root).bind fun root =>
        some ⟨root, []⟩ := rfl
  rw [taken, assigned, Option.bind_some, OrderedMap.insert_of_absent fresh]

theorem foldlM_assignments {lines : List Line} (distinct : (lines.map Line.name).Nodup)
    {root : Parts} (fresh : ∀ line ∈ lines, line.name ∉ root.keys) :
    (lines.map Line.assignment).foldlM Assembly.take ⟨root, []⟩ =
      some ⟨⟨root.entries ++ lines.map fun line => (line.name, .value line.value)⟩, []⟩ := by
  induction lines generalizing root with
  | nil => simp
  | cons line rest ih =>
      obtain ⟨freshLine, freshRest⟩ := List.forall_mem_cons.mp fresh
      obtain ⟨notLater, distinctRest⟩ := List.nodup_cons.mp distinct
      have stillFresh : ∀ other ∈ rest, other.name ∉
          (⟨root.entries ++ [(line.name, .value line.value)]⟩ : Parts).keys := by
        intro other listed present
        rw [OrderedMap.keys, List.map_append, List.mem_append] at present
        rcases present with before | here
        · exact freshRest other listed before
        · have same : other.name = line.name := List.mem_singleton.mp here
          exact notLater (same ▸ List.mem_map_of_mem listed)
      rw [List.map_cons, List.foldlM_cons, take_assignment line freshLine, Option.bind_eq_bind,
        Option.bind_some, ih distinctRest stillFresh, List.append_assoc]
      rfl

theorem finishAll_values (lines : List Line) :
    Part.finishAll (lines.map fun line => (line.name, .value line.value)) =
      lines.map fun line => (line.name, line.value) := by
  induction lines with
  | nil => rw [List.map_nil, Part.finishAll, List.map_nil]
  | cons line rest ih => rw [List.map_cons, Part.finishAll, ih, Part.finish, List.map_cons]

theorem ofStatements?_assignments {lines : List Line} (distinct : (lines.map Line.name).Nodup) :
    Table.ofStatements? (lines.map Line.assignment) =
      some ⟨lines.map fun line => (line.name, line.value)⟩ := by
  have fresh : ∀ line ∈ lines, line.name ∉ (∅ : Parts).keys := fun _ _ => List.not_mem_nil
  rw [Table.ofStatements?, Assembly.start, foldlM_assignments distinct fresh, Option.map_some,
    ← finishAll_values]
  rfl

/-- A flat document with distinct keys is the table of its lines. -/
theorem ofText?_lines {lines : List Line} (plain : ∀ line ∈ lines, line.Plain)
    (distinct : (lines.map Line.name).Nodup) {text : String}
    (written : text.toList = lines.flatMap Line.text) :
    Table.ofText? text = some ⟨lines.map fun line => (line.name, line.value)⟩ := by
  have noMark : ∀ rest, lines.flatMap Line.text ≠ '\ufeff' :: rest := by
    intro rest same
    cases lines with
    | nil => cases same
    | cons line others =>
        have plainLine := plain line List.mem_cons_self
        obtain ⟨first, more, isKey⟩ := List.exists_cons_of_ne_nil plainLine.key_ne_nil
        have inKey := plainLine.keyChars first (isKey ▸ List.mem_cons_self)
        rw [List.flatMap_cons, Line.text, isKey] at same
        rw [List.head_eq_of_cons_eq same] at inKey
        revert inKey
        decide
  have read := Reader.statements_lines plain
  simp only [Table.ofText?, written]
  rw [read, Option.bind_eq_bind, Option.bind_some]
  exact ofStatements?_assignments distinct

end Cascade.Toml
