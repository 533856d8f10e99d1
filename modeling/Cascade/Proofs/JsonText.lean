import Cascade.Proofs.JsonLiterals
set_option autoImplicit false

/-! Compact JSON text. Whatever characters spell a document, they spell its tokens, and these are
read as the document. Main statements: the format writes plain documents as compact JSON, and reads
every compact spelling of one, up to the depth that it allows. -/

namespace Cascade.Json

mutual

/-- The tokens of a document. -/
def tokens : Document → List Token
  | .null => [.scalar .null]
  | .bool truth => [.scalar (.bool truth)]
  | .integer number => [.scalar (.integer number)]
  | .float number => [.scalar (.float number)]
  | .text content => [.text content]
  | .array items => .openArray :: (itemTokens items ++ [.closeArray])
  | .object members => .openObject :: (memberTokens members ++ [.closeObject])

def itemTokens : List Document → List Token
  | [] => []
  | [item] => tokens item
  | item :: rest => tokens item ++ .comma :: itemTokens rest

def memberTokens : List (String × Document) → List Token
  | [] => []
  | [(key, value)] => .text key :: .colon :: tokens value
  | (key, value) :: rest => .text key :: .colon :: (tokens value ++ .comma :: memberTokens rest)

end

theorem itemTokens_cons_cons (first second : Document) (rest : List Document) :
    itemTokens (first :: second :: rest) =
      tokens first ++ .comma :: itemTokens (second :: rest) := rfl

theorem memberTokens_cons_cons (key : String) (value : Document) (second : String × Document)
    (rest : List (String × Document)) :
    memberTokens ((key, value) :: second :: rest) =
      (.text key :: .colon :: tokens value) ++ .comma :: memberTokens (second :: rest) := rfl

/-! ### Spelling -/

namespace Token

/-- Between tokens, the characters are read as the tokens. The last of these may be a word, which
ends only at the next mark or with the text. -/
def Spells (chars : List Char) (spelled : List Token) : Prop :=
  ∀ before, ∃ scan, chars.foldlM Scan.step ⟨before, .between⟩ = some scan ∧
    scan.finish = some (before.reverse ++ spelled)

theorem not_word_of_mark {char : Char} {token : Token} (isMark : mark? char = some token) :
    isSpace char = false ∧ char ≠ '"' ∧ isWordChar char = false := by
  unfold mark? at isMark
  split at isMark
  · decide
  · decide
  · decide
  · decide
  · decide
  · decide
  · cases isMark

theorem begin_mark {char : Char} {token : Token} (isMark : mark? char = some token)
    (before : List Token) : Scan.begin before char = some ⟨token :: before, .between⟩ := by
  obtain ⟨noSpace, noQuote, noWord⟩ := not_word_of_mark isMark
  rw [Scan.begin, noSpace, noWord, isMark, if_neg Bool.false_ne_true, if_neg noQuote,
    if_neg Bool.false_ne_true, Option.map_some]

/-- A mark ends a word, if there is one. -/
theorem step_mark {scan : Scan} {all : List Token} (finished : scan.finish = some all) {char : Char}
    {token : Token} (isMark : mark? char = some token) :
    scan.step char = some ⟨token :: all.reverse, .between⟩ := by
  obtain ⟨tokens, place⟩ := scan
  cases place with
  | between =>
      cases finished
      rw [List.reverse_reverse]
      exact begin_mark isMark tokens
  | word done =>
      simp only [Scan.finish] at finished
      obtain ⟨last, read, rfl⟩ := Option.map_eq_some_iff.mp finished
      have noWord := (not_word_of_mark isMark).2.2
      simp only [Scan.step, noWord, read, List.reverse_reverse]
      exact begin_mark isMark (last :: tokens)
  | _ => cases finished

theorem spells_nil : Spells [] [] := by
  intro before
  exact ⟨_, rfl, by rw [List.append_nil]; rfl⟩

theorem Spells.mark {chars rest : List Char} {spelled further : List Token}
    (front : Spells chars spelled) {char : Char} {token : Token} (isMark : mark? char = some token)
    (back : Spells rest further) :
    Spells (chars ++ char :: rest) (spelled ++ token :: further) := by
  intro before
  obtain ⟨scan, scanned, finished⟩ := front before
  obtain ⟨last, scannedRest, finishedRest⟩ := back (token :: (before.reverse ++ spelled).reverse)
  refine ⟨last, ?_, ?_⟩
  · rw [List.foldlM_append, scanned, Option.bind_eq_bind, Option.bind_some, List.foldlM_cons,
      step_mark finished isMark, Option.bind_eq_bind, Option.bind_some]
    exact scannedRest
  · rw [finishedRest, List.reverse_cons, List.reverse_reverse]
    simp

theorem spells_text {content : String} {chars : List Char} (spelled : TextSpelling content chars) :
    Spells chars [.text content] := by
  cases spelled with
  | @quoted inner spelled =>
      intro before
      refine ⟨⟨.text content :: before, .between⟩, ?_, by rw [Scan.finish, List.reverse_cons]⟩
      have opened : ('"' :: inner ++ ['"']).foldlM Scan.step ⟨before, .between⟩ =
          (inner ++ ['"']).foldlM Scan.step ⟨before, .string []⟩ := rfl
      have closed : Scan.step ⟨before, .string content.toList.reverse⟩ '"' =
          some ⟨.text content :: before, .between⟩ := by
        simp [Scan.step]
      rw [opened, List.foldlM_append, foldlM_chars spelled, Option.bind_eq_bind, Option.bind_some,
        List.append_nil, List.foldlM_cons, closed]
      rfl

theorem foldlM_word {before : List Token} {done word : List Char}
    (inWord : ∀ char ∈ word, isWordChar char = true) :
    word.foldlM Scan.step ⟨before, .word done⟩ = some ⟨before, .word (word.reverse ++ done)⟩ := by
  induction word generalizing done with
  | nil => rfl
  | cons char rest ih =>
      obtain ⟨first, others⟩ := List.forall_mem_cons.mp inWord
      have taken : Scan.step ⟨before, .word done⟩ char = some ⟨before, .word (char :: done)⟩ := by
        simp [Scan.step, first]
      rw [List.foldlM_cons, taken, Option.bind_eq_bind, Option.bind_some, ih others,
        List.reverse_cons, List.append_assoc]
      rfl

theorem begin_word {char : Char} (inWord : isWordChar char = true) (before : List Token) :
    Scan.begin before char = some ⟨before, .word [char]⟩ := by
  have noSpace : isSpace char = false := by
    by_contra space
    simp only [isSpace, Bool.not_eq_false, Bool.or_eq_true, decide_eq_true_eq] at space
    rcases space with ((rfl | rfl) | rfl) | rfl
    · cases inWord
    · cases inWord
    · cases inWord
    · cases inWord
  have noQuote : char ≠ '"' := by
    rintro rfl
    cases inWord
  rw [Scan.begin, noSpace, if_neg Bool.false_ne_true, if_neg noQuote, if_pos inWord]

theorem spells_word {word : List Char} (nonempty : word ≠ [])
    (inWord : word.all isWordChar = true) {token : Token}
    (read : wordToken? word = some token) : Spells word [token] := by
  rw [List.all_eq_true] at inWord
  intro before
  cases word with
  | nil => exact absurd rfl nonempty
  | cons char rest =>
      obtain ⟨first, others⟩ := List.forall_mem_cons.mp inWord
      refine ⟨⟨before, .word (rest.reverse ++ [char])⟩, ?_, ?_⟩
      · have begun : Scan.step ⟨before, .between⟩ char = some ⟨before, .word [char]⟩ :=
          begin_word first before
        rw [List.foldlM_cons, begun, Option.bind_eq_bind, Option.bind_some]
        exact foldlM_word others
      · have whole : (rest.reverse ++ [char]).reverse = char :: rest := by simp
        simp only [Scan.finish]
        rw [whole, read, Option.map_some, List.reverse_cons]

/-- However the document is spelled, the characters are read as its tokens. -/
def SpellsAll (document : Document) : Prop :=
  ∀ chars, Spelling document chars → Spells chars (Json.tokens document)

theorem spells_items {items : List Document} (each : ∀ item ∈ items, SpellsAll item)
    {inner : List Char} (spelled : ItemsSpelling items inner) :
    Spells inner (itemTokens items) := by
  induction items generalizing inner with
  | nil =>
      cases spelled
      exact spells_nil
  | cons item rest ih =>
      obtain ⟨first, others⟩ := List.forall_mem_cons.mp each
      cases spelled with
      | last here => exact first _ here
      | cons here further => exact (first _ here).mark rfl (ih others further)

theorem spells_members {members : List (String × Document)}
    (each : ∀ member ∈ members, SpellsAll member.2) {inner : List Char}
    (spelled : MembersSpelling members inner) : Spells inner (memberTokens members) := by
  induction members generalizing inner with
  | nil =>
      cases spelled
      exact spells_nil
  | cons member rest ih =>
      obtain ⟨first, others⟩ := List.forall_mem_cons.mp each
      cases spelled with
      | last named here => exact (spells_text named).mark rfl (first _ here)
      | cons named here further =>
          exact ((spells_text named).mark rfl (first _ here)).mark rfl (ih others further)

theorem spellsAll_of_plain {depth : Nat} {document : Document} (plain : Plain depth document) :
    SpellsAll document := by
  induction plain with
  | null depth =>
      rintro chars ⟨⟩
      exact spells_word (by decide) rfl rfl
  | bool depth truth =>
      rintro chars ⟨⟩
      · exact spells_word (by decide) rfl rfl
      · exact spells_word (by decide) rfl rfl
  | @integer depth number low high =>
      rintro chars ⟨⟩
      have inWord : (Text.decimal number).all isWordChar = true :=
        List.all_eq_true.mpr fun _ => isWordChar_of_mem_decimal
      exact spells_word (Text.decimal_ne_nil number) inWord (wordToken?_decimal low high)
  | text depth content =>
      rintro chars ⟨⟩
      exact spells_text ‹_›
  | array each ih =>
      rintro chars ⟨⟩
      exact spells_nil.mark rfl ((spells_items ih ‹_›).mark rfl spells_nil)
  | object each ih =>
      rintro chars ⟨⟩
      exact spells_nil.mark rfl ((spells_members ih ‹_›).mark rfl spells_nil)

end Token

/-! ### Reading -/

namespace Reader

variable {depth room : Nat} {state : State} {stack : List Frame}

/-- A value is awaited. Instead of the first item, the array may close. -/
def Opens (depth : Nat) (state : State) (stack : List Frame) : Prop :=
  ∀ token, token ≠ .closeArray → step depth state token = beginValue depth stack token

theorem opens_value (depth : Nat) (stack : List Frame) : Opens depth (.value stack) stack := by
  intro token _
  rfl

theorem opens_firstItem (depth : Nat) (stack : List Frame) :
    Opens depth (.firstItem stack) (.items [] :: stack) := by
  intro token notClosed
  cases token with
  | closeArray => exact absurd rfl notClosed
  | _ => rfl

/-- Where a value is awaited and it has room, its tokens are read as the document. -/
def ReadsBack (depth room : Nat) (document : Document) : Prop :=
  ∀ {state : State} {stack : List Frame}, Opens depth state stack → stack.length + room ≤ depth →
    (tokens document).foldlM (step depth) state = some (.complete document stack)

theorem readsBack_of_token {document : Document} (token : Token)
    (single : tokens document = [token]) (notClosed : token ≠ .closeArray)
    (begun : ∀ stack, beginValue depth stack token = some (.complete document stack)) :
    ReadsBack depth room document := by
  intro state stack opens _
  rw [single, List.foldlM_cons, opens token notClosed, begun]
  rfl

theorem read_items {items : List Document} (each : ∀ item ∈ items, ReadsBack depth room item)
    (nonempty : items ≠ []) {done : List Document}
    (opens : Opens depth state (.items done :: stack)) (fits : stack.length + 1 + room ≤ depth) :
    (itemTokens items ++ [Token.closeArray]).foldlM (step depth) state =
      some (.complete (.array (done.reverse ++ items)) stack) := by
  induction items generalizing state done with
  | nil => exact absurd rfl nonempty
  | cons item rest ih =>
      obtain ⟨first, others⟩ := List.forall_mem_cons.mp each
      have read := first opens fits
      have grown : done.reverse ++ item :: rest = (item :: done).reverse ++ rest := by simp
      rw [grown]
      cases rest with
      | nil =>
          rw [itemTokens, List.foldlM_append, read, List.append_nil]
          rfl
      | cons next rest =>
          have continued := ih others (List.cons_ne_nil _ _)
            (opens_value depth (.items (item :: done) :: stack))
          rw [itemTokens_cons_cons, List.append_assoc, List.foldlM_append, read]
          exact continued

theorem read_members {members : List (String × Document)}
    (each : ∀ member ∈ members, ReadsBack depth room member.2) (nonempty : members ≠ [])
    {done : List (String × Document)}
    (awaits : ∀ key, step depth state (.text key) = some (.colon done key stack))
    (fits : stack.length + 1 + room ≤ depth) :
    (memberTokens members ++ [Token.closeObject]).foldlM (step depth) state =
      some (.complete (.object (done.reverse ++ members)) stack) := by
  induction members generalizing state done with
  | nil => exact absurd rfl nonempty
  | cons member rest ih =>
      obtain ⟨key, value⟩ := member
      obtain ⟨first, others⟩ := List.forall_mem_cons.mp each
      have read : (.text key :: .colon :: tokens value).foldlM (step depth) state =
          some (.complete value (.members done key :: stack)) := by
        rw [List.foldlM_cons, awaits]
        exact first (opens_value depth (.members done key :: stack)) fits
      have grown : done.reverse ++ (key, value) :: rest =
          ((key, value) :: done).reverse ++ rest := by simp
      rw [grown]
      cases rest with
      | nil =>
          rw [memberTokens, List.foldlM_append, read, List.append_nil]
          rfl
      | cons next rest =>
          have awaitsNext : ∀ other, step depth (.key ((key, value) :: done) stack) (.text other) =
              some (.colon ((key, value) :: done) other stack) := fun _ => rfl
          have continued := ih others (List.cons_ne_nil _ _) awaitsNext
          rw [memberTokens_cons_cons, List.append_assoc, List.foldlM_append, read]
          exact continued

/-- Plain documents read back. -/
theorem readsBack {document : Document} (plain : Plain room document) :
    ReadsBack depth room document := by
  induction plain with
  | null room => exact readsBack_of_token (.scalar .null) rfl nofun fun _ => rfl
  | bool room truth => exact readsBack_of_token (.scalar (.bool truth)) rfl nofun fun _ => rfl
  | integer room low high => exact readsBack_of_token (.scalar (.integer _)) rfl nofun fun _ => rfl
  | text room content => exact readsBack_of_token (.text content) rfl nofun fun _ => rfl
  | @array room items each ih =>
      intro state stack opens fits
      have opened : beginValue depth stack .openArray = some (.firstItem stack) :=
        if_pos (by omega)
      rw [tokens, List.foldlM_cons, opens .openArray nofun, opened, Option.bind_eq_bind,
        Option.bind_some]
      cases items with
      | nil => rfl
      | cons item rest =>
          exact read_items ih (List.cons_ne_nil _ _) (opens_firstItem depth stack) (by omega)
  | @object room members each ih =>
      intro state stack opens fits
      have opened : beginValue depth stack .openObject = some (.firstKey stack) :=
        if_pos (by omega)
      rw [tokens, List.foldlM_cons, opens .openObject nofun, opened, Option.bind_eq_bind,
        Option.bind_some]
      cases members with
      | nil => rfl
      | cons member rest =>
          have awaits : ∀ key, step depth (.firstKey stack) (.text key) =
              some (.colon [] key stack) := fun _ => rfl
          exact read_members ih (List.cons_ne_nil _ _) awaits (by omega)

end Reader

/-- A plain document is read from each of its spellings. -/
theorem ofTextWithin?_of_spelling {depth : Nat} {document : Document} (plain : Plain depth document)
    {text : String} (spelled : Spelling document text.toList) :
    ofTextWithin? depth text = some document := by
  obtain ⟨scan, scanned, finished⟩ := Token.spellsAll_of_plain plain _ spelled []
  have read : (tokens document).foldlM (Reader.step depth) (.value []) =
      some (.complete document []) :=
    Reader.readsBack plain (Reader.opens_value depth []) (by simp)
  have split : Token.ofText? text.toList = some (tokens document) := by
    rw [Token.ofText?, Token.Scan.start, scanned]
    exact finished
  rw [ofTextWithin?, split, Option.bind_eq_bind, Option.bind_some, read]
  rfl

theorem format_readsInOrder : ReadsInOrder format := by
  intro document text plain spelled
  have read : ofTextWithin? maxDepth text = some document := ofTextWithin?_of_spelling plain spelled
  simp only [format, read]

/-- The two code units of a surrogate pair are one character. -/
example : ofTextWithin? 0 "\"\\uD83c\\udF19\"" = some (.text "🌙") := by cbv

/-! ### Writing -/

theorem itemsSpelling_writeItems {items : List Document}
    (each : ∀ item ∈ items, Spelling item (write item)) :
    ItemsSpelling items (writeItems items) := by
  induction items with
  | nil => exact .nil
  | cons item rest ih =>
      obtain ⟨first, others⟩ := List.forall_mem_cons.mp each
      cases rest with
      | nil => exact .last first
      | cons next rest => exact .cons first (ih others)

theorem membersSpelling_writeMembers {members : List (String × Document)}
    (each : ∀ member ∈ members, Spelling member.2 (write member.2)) :
    MembersSpelling members (writeMembers members) := by
  induction members with
  | nil => exact .nil
  | cons member rest ih =>
      obtain ⟨first, others⟩ := List.forall_mem_cons.mp each
      cases rest with
      | nil => exact .last (textSpelling_writeText member.1) first
      | cons next rest => exact .cons (textSpelling_writeText member.1) first (ih others)

theorem spelling_write {depth : Nat} {document : Document} (plain : Plain depth document) :
    Spelling document (write document) := by
  induction plain with
  | null depth => exact .null
  | bool depth truth =>
      cases truth with
      | true => exact .true
      | false => exact .false
  | integer depth => exact .integer _
  | text depth content => exact .text (textSpelling_writeText content)
  | array each ih => exact .array (itemsSpelling_writeItems ih)
  | object each ih => exact .object (membersSpelling_writeMembers ih)

theorem format_writesCompactly : WritesCompactly format := by
  intro depth document plain
  refine ⟨toText document, rfl, ?_⟩
  rw [toText, String.toList_ofList]
  exact spelling_write plain

end Cascade.Json
