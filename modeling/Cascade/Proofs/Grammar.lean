import Cascade.Proofs.Tiling
import Cascade.Proofs.Words
import Cascade.Selector.Basic
set_option autoImplicit false

/-! The grammar of selectors, character by character. A text is a selector if it has a word and each
of its dots joins a word on its left to a word on its right. Where a dot does not, the first such
dot is to blame. -/

namespace Cascade.Selector

/-! ### Dots -/

def EndsInWord (before : List Char) : Prop := ∃ char ∈ before.getLast?, isWordChar char = true

def StartsInWord (after : List Char) : Prop := ∃ char ∈ after.head?, isWordChar char = true

/-- A dot between the characters has a word on either side. -/
def Joins (before after : List Char) : Prop := EndsInWord before ∧ StartsInWord after

/-- All dots ahead join, when the other characters stand before. -/
def DotsJoin (before ahead : List Char) : Prop :=
  ∀ front back, ahead = front ++ '.' :: back → Joins (before ++ front) back

/-- The dot between front and back is the first one ahead that does not join. -/
structure FirstStray (before ahead front back : List Char) : Prop where
  split : ahead = front ++ '.' :: back
  stray : ¬Joins (before ++ front) back
  first : ∀ earlier later, front = earlier ++ '.' :: later →
    Joins (before ++ earlier) (later ++ '.' :: back)

/-- What is wrong with a dot behind the characters that does not join. -/
def blame (before : List Char) : SelectorError :=
  match before.getLast? with
  | none => .missingName (byteLength before)
  | some char =>
      if Text.isBlank char then .missingName (byteLength before)
      else .emptyVariant (byteLength before + 1)

variable {before ahead front back rest run : List Char}

theorem dotsJoin_nil (before : List Char) : DotsJoin before [] := by
  intro front back impossible
  cases front with
  | nil => cases impossible
  | cons char rest => cases impossible

theorem dotsJoin_cons_iff (char : Char) :
    DotsJoin before (char :: rest) ↔
      (char = '.' → Joins before rest) ∧ DotsJoin (before ++ [char]) rest := by
  constructor
  · intro join
    constructor
    · intro isDot
      have here := join [] rest (by rw [isDot]; rfl)
      rw [List.append_nil] at here
      exact here
    · intro front back split
      rw [List.append_assoc]
      exact join (char :: front) back (by rw [split]; rfl)
  · rintro ⟨here, further⟩ front back split
    cases front with
    | nil =>
        cases split
        rw [List.append_nil]
        exact here rfl
    | cons first others =>
        cases split
        have join := further others back rfl
        rw [List.append_assoc] at join
        exact join

theorem dotsJoin_append_iff (noDot : '.' ∉ run) :
    DotsJoin before (run ++ rest) ↔ DotsJoin (before ++ run) rest := by
  induction run generalizing before with
  | nil => rw [List.append_nil, List.nil_append]
  | cons char others ih =>
      have notDot : char ≠ '.' := fun isDot => noDot (isDot ▸ List.mem_cons_self)
      rw [List.cons_append, dotsJoin_cons_iff, ih (List.not_mem_of_not_mem_cons noDot),
        List.append_assoc]
      exact and_iff_right fun isDot => absurd isDot notDot

theorem firstStray_nil_iff : FirstStray before ahead [] back ↔
    ahead = '.' :: back ∧ ¬Joins before back := by
  constructor
  · intro stray
    have here := stray.stray
    rw [List.append_nil] at here
    exact ⟨stray.split, here⟩
  · rintro ⟨split, here⟩
    refine ⟨split, by rw [List.append_nil]; exact here, ?_⟩
    intro earlier later impossible
    cases earlier with
    | nil => cases impossible
    | cons char others => cases impossible

theorem firstStray_cons_iff (char : Char) : FirstStray before ahead (char :: front) back ↔
    ∃ rest, ahead = char :: rest ∧ (char = '.' → Joins before rest) ∧
      FirstStray (before ++ [char]) rest front back := by
  constructor
  · intro stray
    refine ⟨front ++ '.' :: back, stray.split, ?_, rfl, ?_, ?_⟩
    · intro isDot
      have here := stray.first [] front (by rw [isDot]; rfl)
      rw [List.append_nil] at here
      exact here
    · have later := stray.stray
      rw [List.append_cons] at later
      exact later
    · intro earlier later split
      rw [List.append_assoc]
      exact stray.first (char :: earlier) later (by rw [split]; rfl)
  · rintro ⟨rest, split, here, stray⟩
    refine ⟨by rw [split, stray.split]; rfl, by rw [List.append_cons]; exact stray.stray, ?_⟩
    intro earlier later isFront
    cases earlier with
    | nil =>
        cases isFront
        rw [List.append_nil, ← stray.split]
        exact here rfl
    | cons first others =>
        cases isFront
        rw [List.append_cons]
        exact stray.first others later rfl

/-- The first stray dot is behind every run that has no dot. -/
theorem FirstStray.behind (stray : FirstStray before (run ++ rest) front back) (noDot : '.' ∉ run) :
    ∃ further, front = run ++ further ∧ FirstStray (before ++ run) rest further back := by
  induction run generalizing before front with
  | nil => exact ⟨front, rfl, by rw [List.append_nil]; exact stray⟩
  | cons char others ih =>
      cases front with
      | nil =>
          have isDot := List.head_eq_of_cons_eq (firstStray_nil_iff.mp stray).1
          exact absurd (isDot ▸ List.mem_cons_self) noDot
      | cons first front =>
          obtain ⟨tail, split, _, later⟩ := (firstStray_cons_iff first).mp stray
          cases split
          obtain ⟨further, same, remaining⟩ :=
            ih later (List.not_mem_of_not_mem_cons noDot)
          rw [List.append_assoc] at remaining
          exact ⟨further, by rw [same]; rfl, remaining⟩

theorem dotsJoin_or_firstStray (before ahead : List Char) :
    DotsJoin before ahead ∨ ∃ front back, FirstStray before ahead front back := by
  induction ahead generalizing before with
  | nil => exact Or.inl (dotsJoin_nil before)
  | cons char rest ih =>
      by_cases here : char = '.' → Joins before rest
      · rcases ih (before ++ [char]) with join | ⟨front, back, stray⟩
        · exact Or.inl ((dotsJoin_cons_iff char).mpr ⟨here, join⟩)
        · exact Or.inr ⟨char :: front, back,
            (firstStray_cons_iff char).mpr ⟨rest, rfl, here, stray⟩⟩
      · obtain ⟨isDot, stray⟩ := Classical.not_imp.mp here
        rw [isDot]
        exact Or.inr ⟨[], rest, firstStray_nil_iff.mpr ⟨rfl, stray⟩⟩

theorem FirstStray.not_dotsJoin (stray : FirstStray before ahead front back) :
    ¬DotsJoin before ahead :=
  fun join => stray.stray (join front back stray.split)

/-! ### Ends of runs -/

theorem getLast?_append_run {α : Type} (before : List α) {run : List α} (nonempty : run ≠ []) :
    ∃ last ∈ run, (before ++ run).getLast? = some last := by
  refine ⟨run.getLast nonempty, List.getLast_mem nonempty, ?_⟩
  rw [List.getLast?_append, List.getLast?_eq_some_getLast nonempty]
  rfl

theorem endsInWord_append (before : List Char) (nonempty : run ≠ [])
    (inWord : ∀ char ∈ run, isWordChar char = true) : EndsInWord (before ++ run) := by
  obtain ⟨last, inRun, isLast⟩ := getLast?_append_run before nonempty
  exact ⟨last, isLast, inWord last inRun⟩

theorem startsInWord_append (nonempty : run ≠ [])
    (inWord : ∀ char ∈ run, isWordChar char = true) (after : List Char) :
    StartsInWord (run ++ after) := by
  cases run with
  | nil => exact absurd rfl nonempty
  | cons first others => exact ⟨first, rfl, inWord first List.mem_cons_self⟩

theorem dot_not_mem_of_word (inWord : ∀ char ∈ run, isWordChar char = true) : '.' ∉ run :=
  fun inside => ((isWordChar_iff '.').mp (inWord '.' inside)).2 rfl

theorem dot_not_mem_of_blank (blank : ∀ char ∈ run, Text.isBlank char = true) : '.' ∉ run := by
  intro inside
  have impossible := blank '.' inside
  rw [Text.isBlank_dot] at impossible
  cases impossible

theorem Tiles.starts_with_word {position : Nat} {tokens : List Token}
    (tiled : Tiles position ahead tokens) (starts : StartsInWord ahead) :
    ∃ name offset others, tokens = .word name offset :: others := by
  obtain ⟨char, isFirst, inWord⟩ := starts
  obtain ⟨notBlank, notDot⟩ := (isWordChar_iff char).mp inWord
  cases tiled with
  | done => cases isFirst
  | @blank _ run rest _ nonempty inRun _ _ =>
      cases run with
      | nil => exact absurd rfl nonempty
      | cons first others =>
          cases isFirst
          rw [inRun char List.mem_cons_self] at notBlank
          cases notBlank
  | dot _ =>
      cases isFirst
      exact absurd rfl notDot
  | word => exact ⟨_, _, _, rfl⟩

/-! ### The scan for terms

The reader takes white space, a word and its variants in loops of their own. One pass over the
tokens that keeps the term it is in reads the same, and each of its steps takes a single token. -/

/-- The terms that the tokens spell, after a term that is not finished yet, if there is one.
The first dot without a word on both sides is to blame. -/
def scanTerms : (open? : Option Term) → List Token → Except SelectorError (List Term)
  | none, [] => .ok []
  | some term, [] => .ok [term]
  | none, .blank :: rest => scanTerms none rest
  | some term, .blank :: rest => (scanTerms none rest).map (term :: ·)
  | none, .word name _ :: rest => scanTerms (some ⟨name, []⟩) rest
  | some term, .word name _ :: rest => (scanTerms (some ⟨name, []⟩) rest).map (term :: ·)
  | none, .dot offset :: _ => .error (.missingName offset)
  | some term, .dot _ :: .word variant _ :: rest =>
      scanTerms (some { term with variants := term.variants ++ [variant] }) rest
  | some _, .dot offset :: _ => .error (.emptyVariant (offset + 1))

theorem skipBlanks_idem (tokens : List Token) :
    skipBlanks (skipBlanks tokens) = skipBlanks tokens := by
  fun_induction skipBlanks tokens with
  | case1 rest ih => exact ih
  | case2 tokens noBlank => rw [skipBlanks.eq_2 tokens noBlank]

theorem skipBlanks_ne_blank_cons (rest : List Token) :
    skipBlanks (.blank :: rest) ≠ .blank :: rest := by
  intro same
  have shorter := length_skipBlanks rest
  rw [skipBlanks] at same
  rw [same] at shorter
  exact absurd shorter (Nat.not_succ_le_self rest.length)

theorem scanTerms_skipBlanks (tokens : List Token) :
    scanTerms none (skipBlanks tokens) = scanTerms none tokens := by
  fun_induction skipBlanks tokens with
  | case1 rest ih => rw [ih, scanTerms]
  | case2 => rfl

/-- The scan goes on with the variants of its open term, and then without an open term. -/
theorem scanTerms_some (term : Term) (tokens : List Token) :
    scanTerms (some term) tokens =
      (readVariants term tokens).bind fun read => (scanTerms none read.2).map (read.1 :: ·) := by
  fun_induction readVariants term tokens with
  | case1 term _ variant _ rest ih => rw [scanTerms, ih]
  | case2 term offset rest noWord => rw [scanTerms.eq_9 term offset rest noWord]; rfl
  | case3 term tokens noVariant noDot =>
      cases tokens with
      | nil => rfl
      | cons token rest =>
          cases token with
          | blank => rfl
          | word => rfl
          | dot offset => exact absurd rfl (noDot offset rest)

/-- Behind white space the reader finds a word, a dot or no token at all, so that it never blames
the end of the text. -/
theorem readTerms_eq_scanTerms (textLength : Nat) (terms : List Term) {tokens : List Token}
    (skipped : skipBlanks tokens = tokens) :
    readTerms textLength terms tokens = (scanTerms none tokens).map (terms ++ ·) := by
  fun_induction readTerms textLength terms tokens with
  | case1 terms tokens isEmpty =>
      rw [List.isEmpty_iff.mp isEmpty, scanTerms]
      exact congrArg Except.ok (List.append_nil terms).symm
  | case2 terms tokens nonempty problem found =>
      cases tokens with
      | nil => exact absurd rfl nonempty
      | cons token rest =>
          cases token with
          | blank => exact absurd skipped (skipBlanks_ne_blank_cons rest)
          | word name offset =>
              rw [readTerm] at found
              rw [scanTerms, scanTerms_some, found]
              rfl
          | dot offset =>
              cases found
              rfl
  | case3 terms tokens nonempty term behind found ih =>
      rw [ih (skipBlanks_idem behind), scanTerms_skipBlanks]
      cases tokens with
      | nil => exact absurd rfl nonempty
      | cons token rest =>
          cases token with
          | blank => exact absurd skipped (skipBlanks_ne_blank_cons rest)
          | word name offset =>
              rw [readTerm] at found
              rw [scanTerms, scanTerms_some, found, Except.bind]
              cases scanTerms none behind with
              | error problem => rfl
              | ok others => exact congrArg Except.ok (List.append_assoc terms [term] others)
          | dot offset => cases found

theorem parse_eq_scan (text : String) :
    parse text = (scanTerms none (tokens text)).bind ofTerms := by
  rw [parse, readTerms_eq_scanTerms _ _ (skipBlanks_idem _), scanTerms_skipBlanks]
  cases scanTerms none (tokens text) with
  | error problem => rfl
  | ok terms => rfl

/-! ### Reading up to the first stray dot -/

/-- A term is open exactly behind a word; otherwise white space stands before, or nothing. -/
def OpensBehind : Option Term → List Char → Prop
  | none, before => ∀ char ∈ before.getLast?, Text.isBlank char = true
  | some _, before => EndsInWord before

theorem blame_between (between : OpensBehind none before) :
    blame before = .missingName (byteLength before) := by
  unfold blame
  split
  · rfl
  · next char isLast => rw [between char isLast, if_pos rfl]

theorem blame_behind_word (behind : EndsInWord before) :
    blame before = .emptyVariant (byteLength before + 1) := by
  obtain ⟨char, isLast, inWord⟩ := behind
  unfold blame
  rw [Option.mem_def.mp isLast]
  simp only [((isWordChar_iff char).mp inWord).1, Bool.false_eq_true, if_false]

theorem not_endsInWord_of_between (between : OpensBehind none before) : ¬EndsInWord before := by
  rintro ⟨char, isLast, inWord⟩
  have notBlank := ((isWordChar_iff char).mp inWord).1
  rw [between char isLast] at notBlank
  cases notBlank

theorem opensBehind_blank (before : List Char) (nonempty : run ≠ [])
    (blank : ∀ char ∈ run, Text.isBlank char = true) : OpensBehind none (before ++ run) := by
  obtain ⟨last, inRun, isLast⟩ := getLast?_append_run before nonempty
  intro char same
  rw [Option.mem_def.mp same] at isLast
  cases isLast
  exact blank _ inRun

theorem scanTerms_of_firstStray {open? : Option Term} {tokens : List Token}
    (tiled : Tiles (byteLength before) ahead tokens) (behind : OpensBehind open? before)
    (stray : FirstStray before ahead front back) :
    scanTerms open? tokens = .error (blame (before ++ front)) := by
  -- By the next token: none, a blank, a word or a dot, first without and then with an open term.
  fun_induction scanTerms open? tokens generalizing before ahead front with
  | case1 | case2 =>
      cases tiled
      exact absurd (dotsJoin_nil before) stray.not_dotsJoin
  | case3 others ih =>
      cases tiled with
      | blank nonempty blank _ continued =>
          obtain ⟨further, rfl, later⟩ := stray.behind (dot_not_mem_of_blank blank)
          rw [← byteLength_append] at continued
          rw [← List.append_assoc]
          exact ih continued (opensBehind_blank before nonempty blank) later
  | case4 term others ih =>
      cases tiled with
      | blank nonempty blank _ continued =>
          obtain ⟨further, rfl, later⟩ := stray.behind (dot_not_mem_of_blank blank)
          rw [← byteLength_append] at continued
          rw [ih continued (opensBehind_blank before nonempty blank) later, List.append_assoc]
          rfl
  | case5 name offset others ih =>
      cases tiled with
      | word nonempty inWord _ continued =>
          obtain ⟨further, rfl, later⟩ := stray.behind (dot_not_mem_of_word inWord)
          rw [← byteLength_append] at continued
          rw [← List.append_assoc]
          exact ih continued (endsInWord_append before nonempty inWord) later
  | case6 term name offset others ih =>
      cases tiled with
      | word nonempty inWord _ continued =>
          obtain ⟨further, rfl, later⟩ := stray.behind (dot_not_mem_of_word inWord)
          rw [← byteLength_append] at continued
          rw [ih continued (endsInWord_append before nonempty inWord) later, List.append_assoc]
          rfl
  | case7 offset others =>
      cases tiled with
      | dot _ =>
          cases front with
          | nil => rw [List.append_nil, blame_between behind]
          | cons first further =>
              -- A dot that no word precedes cannot be one that joins.
              obtain ⟨_, split, joins, _⟩ := (firstStray_cons_iff first).mp stray
              cases split
              exact absurd (joins rfl).1 (not_endsInWord_of_between behind)
  | case8 term offset variant _ others ih =>
      cases tiled with
      | dot continued =>
          cases continued with
          | word nonempty inWord _ continued =>
              rw [← byteLength_append, ← byteLength_append] at continued
              cases front with
              | nil =>
                  obtain ⟨split, stray⟩ := firstStray_nil_iff.mp stray
                  cases split
                  exact absurd ⟨behind, startsInWord_append nonempty inWord _⟩ stray
              | cons first further =>
                  obtain ⟨_, split, joins, later⟩ := (firstStray_cons_iff first).mp stray
                  cases split
                  obtain ⟨further, rfl, remaining⟩ := later.behind (dot_not_mem_of_word inWord)
                  have read := ih continued (endsInWord_append _ nonempty inWord) remaining
                  rw [read, List.append_assoc, List.append_assoc]
                  rfl
  | case9 term offset others noWord =>
      cases tiled with
      | dot continued =>
          cases front with
          | nil => rw [List.append_nil, blame_behind_word behind]
          | cons first further =>
              obtain ⟨_, split, joins, _⟩ := (firstStray_cons_iff first).mp stray
              cases split
              obtain ⟨name, offset, rest, isWord⟩ := continued.starts_with_word (joins rfl).2
              exact absurd isWord (noWord name offset rest)

/-! ### Reading where all dots join -/

/-- The characters of the open term so far. What comes ahead is no part of their last word. -/
inductive Spells : Option Term → (word ahead : List Char) → Prop where
  | between (ahead : List Char) : Spells none [] ahead
  | inside {word ahead : List Char} (nonempty : word ≠ [])
      (noBlank : ∀ char ∈ word, Text.isBlank char = false) (longest : Stops isWordChar ahead) :
      Spells (some (Term.ofWord word)) word ahead

theorem spells_word (nonempty : run ≠ []) (inWord : ∀ char ∈ run, isWordChar char = true)
    (longest : Stops isWordChar rest) : Spells (some ⟨String.ofList run, []⟩) run rest := by
  rw [← Term.ofWord_of_no_dot (dot_not_mem_of_word inWord)]
  exact .inside nonempty (noBlank_of_word inWord) longest

theorem spells_variant {word : List Char} (noBlank : ∀ char ∈ word, Text.isBlank char = false)
    (inWord : ∀ char ∈ run, isWordChar char = true) (longest : Stops isWordChar rest) :
    Spells
      (some { Term.ofWord word with
        variants := (Term.ofWord word).variants ++ [String.ofList run] })
      (word ++ '.' :: run) rest := by
  rw [← Term.ofWord_append_dot word (dot_not_mem_of_word inWord)]
  refine .inside (List.append_ne_nil_of_right_ne_nil word (List.cons_ne_nil _ _)) ?_ longest
  intro char inside
  rcases List.mem_append.mp inside with before | behind
  · exact noBlank char before
  · rcases List.mem_cons.mp behind with isDot | inRun
    · rw [isDot]
      exact Text.isBlank_dot
    · exact noBlank_of_word inWord char inRun

theorem scanTerms_of_dotsJoin {open? : Option Term} {tokens : List Token} {position : Nat}
    {word : List Char} (tiled : Tiles position ahead tokens) (spells : Spells open? word ahead)
    (behind : OpensBehind open? before) (join : DotsJoin before ahead) :
    scanTerms open? tokens = .ok ((Text.words (word ++ ahead)).map Term.ofWord) := by
  -- The cases are those above. What is open spells the last word so far.
  fun_induction scanTerms open? tokens generalizing position before ahead word with
  | case1 =>
      cases tiled
      cases spells
      rw [List.append_nil, Text.words_nil]
      rfl
  | case2 term =>
      cases tiled
      cases spells with
      | inside nonempty noBlank _ =>
          rw [List.append_nil, Text.words_eq_singleton nonempty noBlank]
          rfl
  | case3 others ih =>
      cases spells
      cases tiled with
      | blank nonempty blank _ continued =>
          have further := (dotsJoin_append_iff (dot_not_mem_of_blank blank)).mp join
          rw [List.nil_append, Text.words_blank_append blank]
          exact ih continued (.between _) (opensBehind_blank before nonempty blank) further
  | case4 term others ih =>
      cases tiled with
      | blank nonempty blank _ continued =>
          have further := (dotsJoin_append_iff (dot_not_mem_of_blank blank)).mp join
          rw [ih continued (.between _) (opensBehind_blank before nonempty blank) further,
            Text.words_append_run nonempty blank]
          cases spells with
          | inside wordNonempty noBlank _ =>
              rw [Text.words_eq_singleton wordNonempty noBlank]
              rfl
  | case5 name offset others ih =>
      cases spells
      cases tiled with
      | word nonempty inWord longest continued =>
          have further := (dotsJoin_append_iff (dot_not_mem_of_word inWord)).mp join
          have read := ih continued (spells_word nonempty inWord longest)
            (endsInWord_append before nonempty inWord) further
          rw [List.nil_append]
          exact read
  | case6 term name offset others ih =>
      -- Two words never follow each other: the first one would have been longer.
      cases tiled with
      | word nonempty inWord _ _ =>
          obtain ⟨char, isFirst, wordChar⟩ := startsInWord_append nonempty inWord _
          cases spells with
          | inside _ _ longest =>
              rw [longest char isFirst] at wordChar
              cases wordChar
  | case7 offset others =>
      cases tiled with
      | dot _ =>
          have joins := ((dotsJoin_cons_iff '.').mp join).1 rfl
          exact absurd joins.1 (not_endsInWord_of_between behind)
  | case8 term offset variant _ others ih =>
      cases tiled with
      | dot continued =>
          cases continued with
          | word nonempty inWord longest continued =>
              have later := ((dotsJoin_cons_iff '.').mp join).2
              have further := (dotsJoin_append_iff (dot_not_mem_of_word inWord)).mp later
              cases spells with
              | inside _ noBlank _ =>
                  rw [ih continued (spells_variant noBlank inWord longest)
                    (endsInWord_append _ nonempty inWord) further, List.append_assoc]
                  rfl
  | case9 term offset others noWord =>
      cases tiled with
      | dot continued =>
          have joins := ((dotsJoin_cons_iff '.').mp join).1 rfl
          obtain ⟨name, offset, rest, isWord⟩ := continued.starts_with_word joins.2
          exact absurd isWord (noWord name offset rest)

/-! ### Selectors -/

theorem terms_ne_nil (selector : Selector) : selector.terms ≠ [] :=
  List.append_ne_nil_of_right_ne_nil _ (List.cons_ne_nil _ _)

theorem ofTerms_eq_ok_iff (terms : List Term) (selector : Selector) :
    ofTerms terms = .ok selector ↔ selector.terms = terms := by
  obtain ⟨ancestors, anchor⟩ := selector
  rcases List.eq_nil_or_concat terms with rfl | ⟨front, last, rfl⟩
  · constructor
    · intro impossible
      cases impossible
    · intro impossible
      exact absurd impossible (terms_ne_nil _)
  · simp [ofTerms, Selector.terms, eq_comm]

theorem ofTerms_eq_error_iff (terms : List Term) (problem : SelectorError) :
    ofTerms terms = .error problem ↔ terms = [] ∧ problem = .empty := by
  rcases List.eq_nil_or_concat terms with rfl | ⟨front, last, rfl⟩
  · simp [ofTerms, eq_comm]
  · simp [ofTerms]

theorem opensBehind_nil : OpensBehind none [] := by
  intro char impossible
  cases impossible

theorem parse_of_firstStray {text : String} (stray : FirstStray [] text.toList front back) :
    parse text = .error (blame front) := by
  have tiled : Tiles (byteLength []) text.toList (tokens text) := tiles_tokens text
  rw [parse_eq_scan, scanTerms_of_firstStray tiled opensBehind_nil stray]
  rfl

theorem parse_of_dotsJoin {text : String} (join : DotsJoin [] text.toList) :
    parse text = ofTerms ((Text.words text.toList).map Term.ofWord) := by
  rw [parse_eq_scan, scanTerms_of_dotsJoin (tiles_tokens text) (.between _) opensBehind_nil join]
  rfl

theorem parse_eq_ok_iff (text : String) (selector : Selector) :
    parse text = .ok selector ↔
      DotsJoin [] text.toList ∧ selector.terms = (Text.words text.toList).map Term.ofWord := by
  rcases dotsJoin_or_firstStray [] text.toList with join | ⟨front, back, stray⟩
  · rw [parse_of_dotsJoin join, ofTerms_eq_ok_iff]
    exact (and_iff_right join).symm
  · rw [parse_of_firstStray stray]
    constructor
    · intro impossible
      cases impossible
    · rintro ⟨join, _⟩
      exact absurd join stray.not_dotsJoin

theorem blame_ne_empty (before : List Char) : blame before ≠ .empty := by
  unfold blame
  split
  · exact SelectorError.noConfusion
  · split
    · exact SelectorError.noConfusion
    · exact SelectorError.noConfusion

theorem parse_eq_empty_iff (text : String) :
    parse text = .error .empty ↔ ∀ char ∈ text.toList, Text.isBlank char = true := by
  rcases dotsJoin_or_firstStray [] text.toList with join | ⟨front, back, stray⟩
  · rw [parse_of_dotsJoin join, ofTerms_eq_error_iff, List.map_eq_nil_iff, Text.words_eq_nil_iff]
    exact and_iff_left rfl
  · rw [parse_of_firstStray stray]
    constructor
    · intro same
      exact absurd (Except.error.inj same) (blame_ne_empty front)
    · intro blank
      have noDot := dot_not_mem_of_blank blank
      rw [stray.split] at noDot
      exact absurd (List.mem_append_right front List.mem_cons_self) noDot

theorem parse_succeeds_iff (text : String) :
    (∃ selector, parse text = .ok selector) ↔
      (∃ char ∈ text.toList, Text.isBlank char = false) ∧ DotsJoin [] text.toList := by
  have someWord :
      (∃ char ∈ text.toList, Text.isBlank char = false) ↔ parse text ≠ .error .empty := by
    rw [ne_eq, parse_eq_empty_iff]
    simp
  rw [someWord]
  constructor
  · rintro ⟨selector, read⟩
    refine ⟨?_, ((parse_eq_ok_iff text selector).mp read).1⟩
    intro impossible
    rw [read] at impossible
    cases impossible
  · rintro ⟨notEmpty, join⟩
    rw [parse_of_dotsJoin join] at notEmpty ⊢
    cases made : ofTerms ((Text.words text.toList).map Term.ofWord) with
    | ok selector => exact ⟨selector, rfl⟩
    | error problem =>
        rw [made, ((ofTerms_eq_error_iff _ problem).mp made).2] at notEmpty
        exact absurd rfl notEmpty

/-- A text of white space is an empty selector. Any other is a selector exactly if all its dots join
words, and then has a term for each word; else the first dot that does not join is to blame. -/
theorem parse_accepts_grammar (text : String) :
    (parse text = .error .empty ↔ ∀ char ∈ text.toList, Text.isBlank char = true) ∧
    ((∃ selector, parse text = .ok selector) ↔
      (∃ char ∈ text.toList, Text.isBlank char = false) ∧
        ∀ before after, text.toList = before ++ '.' :: after → Joins before after) ∧
    (∀ selector, parse text = .ok selector →
      selector.terms = (Text.words text.toList).map Term.ofWord) ∧
    (∀ before after, text.toList = before ++ '.' :: after → ¬Joins before after →
      ∃ front back, FirstStray [] text.toList front back ∧ parse text = .error (blame front)) := by
  refine ⟨parse_eq_empty_iff text, parse_succeeds_iff text, ?_, ?_⟩
  · intro selector read
    exact ((parse_eq_ok_iff text selector).mp read).2
  · intro before after split notJoined
    rcases dotsJoin_or_firstStray [] text.toList with join | ⟨front, back, stray⟩
    · exact absurd (join before after split) notJoined
    · exact ⟨front, back, stray, parse_of_firstStray stray⟩

/-- Offsets count bytes, of which the first character here has two. -/
example : parse "é. B" = .error (.emptyVariant 3) := by cbv

end Cascade.Selector
