import Cascade.Selector.Basic
import Cascade.Selector.Token
set_option autoImplicit false

/-! Words of a text and what they say. Words are what white space separates; the dots of a word
divide it into the name of a term and the variants. -/

namespace Cascade

namespace Text

/-- The words of a text: its pieces between blank characters, without the empty ones. -/
def words (chars : List Char) : List (List Char) :=
  (chars.splitOnP isBlank).filter fun word => !word.isEmpty

theorem words_nil : words [] = [] := by
  simp [words, List.splitOnP_nil]

theorem words_append_blank {char : Char} (blank : isBlank char = true) (front back : List Char) :
    words (front ++ char :: back) = words front ++ words back := by
  rw [words, List.splitOnP_append_cons front back blank, List.filter_append]
  rfl

theorem words_cons_blank {char : Char} (blank : isBlank char = true) (rest : List Char) :
    words (char :: rest) = words rest := by
  have apart := words_append_blank blank [] rest
  rw [words_nil] at apart
  exact apart

theorem words_blank_append {run : List Char} (blank : ∀ char ∈ run, isBlank char = true)
    (back : List Char) : words (run ++ back) = words back := by
  induction run with
  | nil => rfl
  | cons first rest ih =>
      rw [List.cons_append, words_cons_blank (blank first List.mem_cons_self)]
      exact ih fun char inside => blank char (List.mem_cons_of_mem first inside)

theorem words_append_run {run : List Char} (nonempty : run ≠ [])
    (blank : ∀ char ∈ run, isBlank char = true) (front back : List Char) :
    words (front ++ (run ++ back)) = words front ++ words back := by
  cases run with
  | nil => exact absurd rfl nonempty
  | cons first rest =>
      rw [List.cons_append, words_append_blank (blank first List.mem_cons_self), words_blank_append]
      exact fun char inside => blank char (List.mem_cons_of_mem first inside)

theorem words_eq_singleton {word : List Char} (nonempty : word ≠ [])
    (noBlank : ∀ char ∈ word, isBlank char = false) : words word = [word] := by
  rw [words, List.splitOnP_eq_singleton noBlank]
  simp [nonempty]

theorem words_cons_cons {char next : Char} (notBlank : isBlank char = false)
    (nextNotBlank : isBlank next = false) (rest : List Char) :
    words (char :: next :: rest) = (words (next :: rest)).modifyHead (char :: ·) := by
  unfold words
  rw [List.splitOnP_cons_eq_if_modifyHead, List.splitOnP_cons_eq_if_modifyHead]
  cases split : rest.splitOnP isBlank with
  | nil => exact absurd split (List.splitOnP_ne_nil isBlank rest)
  | cons first others => simp [notBlank, nextNotBlank]

theorem words_cons_of_blank_next {char : Char} (notBlank : isBlank char = false) {rest : List Char}
    (next : ∀ other ∈ rest.head?, isBlank other = true) :
    words (char :: rest) = [char] :: words rest := by
  have single : words [char] = [[char]] :=
    words_eq_singleton (List.cons_ne_nil _ _) fun other inside => by
      rw [List.mem_singleton.mp inside]
      exact notBlank
  cases rest with
  | nil => rw [words_nil, single]
  | cons first others =>
      have blank := next first rfl
      have apart := words_append_blank blank [char] others
      rw [single] at apart
      rw [words_cons_blank blank]
      exact apart

theorem words_cons_ne_nil {char : Char} (notBlank : isBlank char = false) (rest : List Char) :
    words (char :: rest) ≠ [] := by
  unfold words
  rw [List.splitOnP_cons_eq_if_modifyHead]
  cases split : rest.splitOnP isBlank with
  | nil => exact absurd split (List.splitOnP_ne_nil isBlank rest)
  | cons first others => simp [notBlank]

theorem words_eq_nil_iff (chars : List Char) :
    words chars = [] ↔ ∀ char ∈ chars, isBlank char = true := by
  constructor
  · intro noWords char inside
    induction chars with
    | nil => cases inside
    | cons first rest ih =>
        cases blank : isBlank first with
        | false => exact absurd noWords (words_cons_ne_nil blank rest)
        | true =>
            rcases List.mem_cons.mp inside with same | later
            · rw [same, blank]
            · rw [words_cons_blank blank] at noWords
              exact ih noWords later
  · intro blank
    have onlyBlank := words_blank_append blank []
    rw [List.append_nil, words_nil] at onlyBlank
    exact onlyBlank

end Text

namespace Term

/-- The term that a word spells: a name, and a variant after each dot. -/
def ofWord (word : List Char) : Term :=
  let parts := word.splitOn '.'
  ⟨String.ofList (parts.headD []), parts.tail.map String.ofList⟩

theorem ofWord_of_no_dot {word : List Char} (noDot : '.' ∉ word) :
    ofWord word = ⟨String.ofList word, []⟩ := by
  rw [ofWord, List.splitOn_eq_singleton noDot]
  rfl

theorem ofWord_append_dot (word : List Char) {last : List Char} (noDot : '.' ∉ last) :
    ofWord (word ++ '.' :: last) =
      { ofWord word with variants := (ofWord word).variants ++ [String.ofList last] } := by
  unfold ofWord
  rw [List.splitOn_append_cons_self, List.splitOn_eq_singleton noDot]
  cases split : word.splitOn '.' with
  | nil => exact absurd split (List.splitOnP_ne_nil _ word)
  | cons name variants => simp

theorem toList_toText (term : Term) :
    term.toText.toList =
      ['.'].intercalate (term.name.toList :: term.variants.map String.toList) := by
  obtain ⟨name, variants⟩ := term
  unfold toText
  induction variants generalizing name with
  | nil => simp
  | cons variant rest ih =>
      have continued := ih variant
      simp only [String.toList_append, String.toList_join, List.flatMap_map] at continued ⊢
      rw [List.map_cons, List.intercalate_cons_cons, ← continued]
      simp

theorem toText_ofWord (word : List Char) : (ofWord word).toText.toList = word := by
  have joined : ['.'].intercalate (word.splitOn '.') = word := List.intercalate_splitOn '.'
  rw [toList_toText]
  unfold ofWord
  cases split : word.splitOn '.' with
  | nil => exact absurd split (List.splitOnP_ne_nil _ word)
  | cons name variants =>
      rw [split] at joined
      simpa [Function.comp_def] using joined

end Term

end Cascade
