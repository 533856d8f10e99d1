import Cascade.Proofs.Grammar
import Cascade.Proofs.Spacing
set_option autoImplicit false

/-! The canonical text of a selector. What was read is written with single spaces and reads back as
the same selector. Text that is no word, as a name or as a variant, is lost in writing. -/

namespace Cascade

/-! ### Writing what was read -/

namespace Selector

theorem toList_toText (selector : Selector) :
    selector.toText.toList =
      [' '].intercalate (selector.terms.map fun term => term.toText.toList) := by
  rw [toText, String.toList_intercalate, List.map_map]
  rfl

theorem toText_of_parse {text : String} {selector : Selector} (read : parse text = .ok selector) :
    selector.toText.toList = Text.collapse text.toList := by
  have spelled : (fun term : Term => term.toText.toList) ∘ Term.ofWord = id :=
    funext Term.toText_ofWord
  rw [toList_toText, ((parse_eq_ok_iff text selector).mp read).2, List.map_map, spelled,
    List.map_id, Text.collapse_eq_intercalate]

end Selector

/-! ### Terms that can be written -/

/-- Text that stands between the dots and the white space of a selector. -/
def IsWord (text : String) : Prop :=
  text ≠ "" ∧ ∀ char ∈ text.toList, Text.isBlank char = false ∧ char ≠ '.'

structure Term.HasWords (term : Term) : Prop where
  name : IsWord term.name
  variants : ∀ variant ∈ term.variants, IsWord variant

theorem isWord_iff (text : String) :
    IsWord text ↔ text.toList ≠ [] ∧ ∀ char ∈ text.toList, Selector.isWordChar char = true := by
  simp only [IsWord, Selector.isWordChar_iff, ne_eq, String.toList_eq_nil_iff]

namespace Selector

theorem isWord_ofList {run : List Char} (nonempty : run ≠ [])
    (inWord : ∀ char ∈ run, isWordChar char = true) : IsWord (String.ofList run) := by
  rw [isWord_iff, String.toList_ofList]
  exact ⟨nonempty, inWord⟩

theorem map_cons_eq_ok {term : Term} {read : Except SelectorError (List Term)} {terms : List Term}
    (mapped : read.map (term :: ·) = .ok terms) :
    ∃ rest, read = .ok rest ∧ terms = term :: rest := by
  cases read with
  | error problem => cases mapped
  | ok rest =>
      cases mapped
      exact ⟨rest, rfl, rfl⟩

/-- Names and variants are read off longest runs of word characters. -/
theorem hasWords_of_scanTerms {open? : Option Term} {tokens : List Token} {position : Nat}
    {ahead : List Char} {terms : List Term} (tiled : Tiles position ahead tokens)
    (opened : ∀ term ∈ open?, term.HasWords) (read : scanTerms open? tokens = .ok terms) :
    ∀ term ∈ terms, term.HasWords := by
  have noneOpen : ∀ term ∈ (none : Option Term), term.HasWords := by
    intro term impossible
    cases impossible
  have opens : ∀ {run : List Char}, run ≠ [] → (∀ char ∈ run, isWordChar char = true) →
      ∀ term ∈ some (⟨String.ofList run, []⟩ : Term), term.HasWords := by
    intro run nonempty inWord term same
    cases same
    exact ⟨isWord_ofList nonempty inWord,
      fun variant impossible => absurd impossible List.not_mem_nil⟩
  fun_induction scanTerms open? tokens generalizing position ahead terms with
  | case1 =>
      cases read
      intro term impossible
      cases impossible
  | case2 term =>
      cases read
      exact List.forall_mem_singleton.mpr (opened term rfl)
  | case3 others ih =>
      cases tiled with
      | blank _ _ _ continued => exact ih continued noneOpen read
  | case4 term others ih =>
      cases tiled with
      | blank _ _ _ continued =>
          obtain ⟨rest, readRest, rfl⟩ := map_cons_eq_ok read
          exact List.forall_mem_cons.mpr ⟨opened term rfl, ih continued noneOpen readRest⟩
  | case5 name offset others ih =>
      cases tiled with
      | word nonempty inWord _ continued => exact ih continued (opens nonempty inWord) read
  | case6 term name offset others ih =>
      cases tiled with
      | word nonempty inWord _ continued =>
          obtain ⟨rest, readRest, rfl⟩ := map_cons_eq_ok read
          exact List.forall_mem_cons.mpr
            ⟨opened term rfl, ih continued (opens nonempty inWord) readRest⟩
  | case7 offset others => cases read
  | case8 term offset variant _ others ih =>
      cases tiled with
      | dot continued =>
          cases continued with
          | word nonempty inWord _ continued =>
              refine ih continued ?_ read
              intro other same
              cases same
              have before := opened term rfl
              exact ⟨before.name, List.forall_mem_append.mpr ⟨before.variants,
                List.forall_mem_singleton.mpr (isWord_ofList nonempty inWord)⟩⟩
  | case9 term offset others noWord => cases read

theorem hasWords_of_parse {text : String} {selector : Selector} (read : parse text = .ok selector) :
    ∀ term ∈ selector.terms, term.HasWords := by
  rw [parse_eq_scan] at read
  cases scanned : scanTerms none (tokens text) with
  | error problem =>
      rw [scanned] at read
      cases read
  | ok terms =>
      rw [scanned] at read
      rw [(ofTerms_eq_ok_iff terms selector).mp read]
      refine hasWords_of_scanTerms (tiles_tokens text) ?_ scanned
      intro term impossible
      cases impossible

/-! ### Reading what was written -/

theorem dotsJoin_intercalate {parts : List (List Char)} (nonempty : parts ≠ [])
    (areWords : ∀ part ∈ parts, part ≠ [] ∧ ∀ char ∈ part, isWordChar char = true)
    {before rest : List Char} (further : DotsJoin (before ++ ['.'].intercalate parts) rest) :
    DotsJoin before (['.'].intercalate parts ++ rest) := by
  induction parts generalizing before with
  | nil => exact absurd rfl nonempty
  | cons part others ih =>
      obtain ⟨⟨partNonempty, inWord⟩, areWordsToo⟩ := List.forall_mem_cons.mp areWords
      cases others with
      | nil =>
          rw [List.intercalate_singleton] at further ⊢
          exact (dotsJoin_append_iff (dot_not_mem_of_word inWord)).mpr further
      | cons next more =>
          obtain ⟨⟨nextNonempty, inNext⟩, _⟩ := List.forall_mem_cons.mp areWordsToo
          have starts : StartsInWord (['.'].intercalate (next :: more) ++ rest) := by
            cases more with
            | nil =>
                rw [List.intercalate_singleton]
                exact startsInWord_append nextNonempty inNext rest
            | cons =>
                rw [List.intercalate_cons_cons, List.append_assoc, List.append_assoc]
                exact startsInWord_append nextNonempty inNext _
          rw [List.intercalate_cons_cons] at further ⊢
          rw [List.append_assoc, List.append_assoc,
            dotsJoin_append_iff (dot_not_mem_of_word inWord)]
          refine (dotsJoin_cons_iff '.').mpr ⟨fun _ => ?_, ih (List.cons_ne_nil _ _) areWordsToo ?_⟩
          · exact ⟨endsInWord_append before partNonempty inWord, starts⟩
          · rw [List.append_assoc, List.append_assoc, ← List.append_assoc part]
            exact further

end Selector

namespace Term.HasWords

variable {term : Term}

/-- The name and the variants, as characters. -/
theorem parts (plain : term.HasWords) :
    ∀ part ∈ term.name.toList :: term.variants.map String.toList,
      part ≠ [] ∧ ∀ char ∈ part, Selector.isWordChar char = true := by
  refine List.forall_mem_cons.mpr ⟨(isWord_iff _).mp plain.name, ?_⟩
  intro part inside
  obtain ⟨variant, listed, rfl⟩ := List.mem_map.mp inside
  exact (isWord_iff variant).mp (plain.variants variant listed)

theorem ofWord_toText (plain : term.HasWords) : Term.ofWord term.toText.toList = term := by
  have noDot : ∀ part ∈ term.name.toList :: term.variants.map String.toList, '.' ∉ part :=
    fun part inside => Selector.dot_not_mem_of_word (plain.parts part inside).2
  rw [Term.toList_toText, Term.ofWord, List.splitOn_intercalate '.' noDot (List.cons_ne_nil _ _)]
  simp [Function.comp_def]

theorem noBlank_toText (plain : term.HasWords) :
    ∀ char ∈ term.toText.toList, Text.isBlank char = false := by
  intro char inside
  rw [Term.toText, String.toList_append, String.toList_join, List.mem_append, List.mem_flatMap]
    at inside
  rcases inside with inName | ⟨written, isWritten, inWritten⟩
  · exact (plain.name.2 char inName).1
  · obtain ⟨variant, listed, rfl⟩ := List.mem_map.mp isWritten
    rw [String.toList_append, List.mem_append] at inWritten
    rcases inWritten with isDot | inVariant
    · rw [List.mem_singleton.mp isDot]
      exact Text.isBlank_dot
    · exact ((plain.variants variant listed).2 char inVariant).1

theorem toText_ne_nil (plain : term.HasWords) : term.toText.toList ≠ [] := by
  rw [Term.toText, String.toList_append]
  exact List.append_ne_nil_of_left_ne_nil ((isWord_iff _).mp plain.name).1 _

end Term.HasWords

namespace Selector

theorem dotsJoin_of_spaced {terms : List Term} {text : List Char}
    (spaced : Text.Spaced (terms.map fun term => term.toText.toList) text)
    (plain : ∀ term ∈ terms, term.HasWords) (before : List Char) : DotsJoin before text := by
  generalize isWritten : terms.map (fun term => term.toText.toList) = written at spaced
  induction spaced generalizing terms before with
  | last word =>
      obtain ⟨term, rfl, rfl⟩ := List.map_eq_singleton_iff.mp isWritten
      have joined := dotsJoin_intercalate (List.cons_ne_nil _ _)
        (plain term List.mem_cons_self).parts (dotsJoin_nil (before ++ _))
      rw [List.append_nil, ← Term.toList_toText] at joined
      exact joined
  | next word _ blank _ ih =>
      obtain ⟨term, others, rfl, rfl, isRest⟩ := List.map_eq_cons_iff.mp isWritten
      obtain ⟨plainTerm, plainOthers⟩ := List.forall_mem_cons.mp plain
      have later := (dotsJoin_append_iff (dot_not_mem_of_blank blank)).mpr
        (ih plainOthers (before ++ term.toText.toList ++ _) isRest)
      rw [Term.toList_toText term] at later
      have joined := dotsJoin_intercalate (List.cons_ne_nil _ _) plainTerm.parts later
      rw [← Term.toList_toText] at joined
      exact joined

theorem parse_of_spaced {selector : Selector} (plain : ∀ term ∈ selector.terms, term.HasWords)
    {text : String}
    (spaced : Text.Spaced (selector.terms.map fun term => term.toText.toList) text.toList) :
    parse text = .ok selector := by
  have areWords : ∀ word ∈ selector.terms.map fun term => term.toText.toList,
      word ≠ [] ∧ ∀ char ∈ word, Text.isBlank char = false := by
    intro word inside
    obtain ⟨term, listed, rfl⟩ := List.mem_map.mp inside
    exact ⟨(plain term listed).toText_ne_nil, (plain term listed).noBlank_toText⟩
  rw [parse_eq_ok_iff, spaced.words_eq areWords, List.map_map]
  refine ⟨dotsJoin_of_spaced spaced plain [], ?_⟩
  have readBack : ∀ term ∈ selector.terms,
      (Term.ofWord ∘ fun term => term.toText.toList) term = term :=
    fun term listed => (plain term listed).ofWord_toText
  rw [List.map_congr_left readBack]
  exact (List.map_id _).symm

theorem parse_toText_of_hasWords {selector : Selector}
    (plain : ∀ term ∈ selector.terms, term.HasWords) : parse selector.toText = .ok selector := by
  apply parse_of_spaced plain
  rw [toList_toText]
  exact Text.spaced_intercalate fun none =>
    terms_ne_nil selector (List.map_eq_nil_iff.mp none)

/-- What is read has a canonical text, which reads back the same. A selector that is put together
from terms reads back from its text exactly if its names and variants are words. -/
theorem reads_back_canonical_text :
    (∀ text selector, parse text = .ok selector →
      selector.toText.toList = Text.collapse text.toList ∧ parse selector.toText = .ok selector) ∧
    (∀ terms selector, ofTerms terms = .ok selector →
      (parse selector.toText = .ok selector ↔
        ∀ term ∈ terms, IsWord term.name ∧ ∀ variant ∈ term.variants, IsWord variant)) := by
  constructor
  · intro text selector read
    exact ⟨toText_of_parse read, parse_toText_of_hasWords (hasWords_of_parse read)⟩
  · intro terms selector made
    rw [← (ofTerms_eq_ok_iff terms selector).mp made]
    constructor
    · intro readBack term listed
      have plain := hasWords_of_parse readBack term listed
      exact ⟨plain.name, plain.variants⟩
    · intro areWords
      exact parse_toText_of_hasWords fun term listed =>
        ⟨(areWords term listed).1, (areWords term listed).2⟩

end Selector

end Cascade
