import Cascade.Proofs.Words
import Mathlib.Data.List.DropRight
set_option autoImplicit false

/-! White space between the words of a text, any run of it or in one form: none at either end of the
text, and a single space for each run of it further in. This is how the words of the text look when
they are written with spaces between them. -/

namespace Cascade.Text

def trim (chars : List Char) : List Char := (chars.dropWhile isBlank).rdropWhile isBlank

/-- Writes one space for each run of white space, in the place of its last character. -/
def squeeze : List Char → List Char
  | [] => []
  | char :: rest =>
      if isBlank char then
        if rest.head?.any isBlank then squeeze rest else ' ' :: squeeze rest
      else char :: squeeze rest

/-- Without white space at either end, and with one space for each run of it further in. -/
def collapse (chars : List Char) : List Char := squeeze (trim chars)

theorem words_append_of_blank (front : List Char) {run : List Char}
    (blank : ∀ char ∈ run, isBlank char = true) : words (front ++ run) = words front := by
  by_cases nonempty : run ≠ []
  · have apart := words_append_run nonempty blank front []
    rw [words_nil, List.append_nil, List.append_nil] at apart
    exact apart
  · rw [not_not.mp nonempty, List.append_nil]

theorem words_trim (chars : List Char) : words (trim chars) = words chars := by
  have onLeft : words (chars.takeWhile isBlank ++ chars.dropWhile isBlank) =
      words (chars.dropWhile isBlank) :=
    words_blank_append (List.all_eq_true.mp List.all_takeWhile) _
  have onRight : words (trim chars ++ (chars.dropWhile isBlank).rtakeWhile isBlank) =
      words (trim chars) :=
    words_append_of_blank _ fun _ inRun => List.mem_rtakeWhile_imp inRun
  rw [List.takeWhile_append_dropWhile] at onLeft
  rw [trim, List.rdropWhile_append_rtakeWhile] at onRight
  exact onRight.symm.trans onLeft.symm

theorem getLast?_trim (chars : List Char) :
    ∀ char ∈ (trim chars).getLast?, isBlank char = false := by
  intro char isLast
  have nonempty : trim chars ≠ [] := by
    intro empty
    rw [empty] at isLast
    cases isLast
  have notBlank := List.rdropWhile_last_not isBlank _ nonempty
  rw [List.getLast?_eq_some_getLast nonempty] at isLast
  cases isLast
  exact Bool.eq_false_iff.mpr notBlank

theorem head?_trim (chars : List Char) : (trim chars).head?.any isBlank = false := by
  cases trimmed : trim chars with
  | nil => rfl
  | cons first rest =>
      have stopped := List.head?_dropWhile_not isBlank chars
      obtain ⟨dropped, whole⟩ := List.rdropWhile_prefix isBlank (l := chars.dropWhile isBlank)
      rw [← trim, trimmed] at whole
      rw [← whole] at stopped
      exact stopped

theorem words_ne_nil_of_ends {chars : List Char} (nonempty : chars ≠ [])
    (ends : ∀ char ∈ chars.getLast?, isBlank char = false) : words chars ≠ [] := by
  rw [ne_eq, words_eq_nil_iff]
  intro allBlank
  have notBlank := ends _ (List.getLast?_eq_some_getLast nonempty)
  rw [allBlank _ (List.getLast_mem nonempty)] at notBlank
  cases notBlank

/-- Words with single spaces, except that white space in front leaves a space of its own. -/
theorem squeeze_eq_intercalate (chars : List Char)
    (ends : ∀ char ∈ chars.getLast?, isBlank char = false) :
    squeeze chars =
      (if chars.head?.any isBlank then [' '] else []) ++ [' '].intercalate (words chars) := by
  induction chars with
  | nil =>
      rw [words_nil]
      rfl
  | cons char rest ih =>
      cases rest with
      | nil =>
          have notBlank := ends char rfl
          rw [words_cons_of_blank_next notBlank (by intro other impossible; cases impossible),
            words_nil]
          simp [squeeze, notBlank]
      | cons next others =>
          have squeezed := ih ends
          cases blank : isBlank char with
          | true =>
              rw [squeeze, words_cons_blank blank, squeezed]
              cases nextBlank : isBlank next with
              | true => simp [blank, nextBlank]
              | false => simp [blank, nextBlank]
          | false =>
              rw [squeeze, squeezed]
              have someWord := words_ne_nil_of_ends (List.cons_ne_nil next others) ends
              cases nextBlank : isBlank next with
              | true =>
                  rw [words_cons_of_blank_next blank (by simp [nextBlank]),
                    List.intercalate_cons_of_ne_nil someWord]
                  simp [blank, nextBlank]
              | false =>
                  rw [words_cons_cons blank nextBlank]
                  cases split : words (next :: others) with
                  | nil => exact absurd split someWord
                  | cons word more => simp [blank, nextBlank]

theorem collapse_eq_intercalate (chars : List Char) :
    collapse chars = [' '].intercalate (words chars) := by
  rw [collapse, squeeze_eq_intercalate _ (getLast?_trim chars), head?_trim, words_trim]
  rfl

/-- The words one after the other, with white space between them. -/
inductive Spaced : List (List Char) → List Char → Prop where
  | last (word : List Char) : Spaced [word] word
  | next (word : List Char) {gap rest : List Char} {others : List (List Char)} (apart : gap ≠ [])
      (blank : ∀ char ∈ gap, isBlank char = true) (spaced : Spaced others rest) :
      Spaced (word :: others) (word ++ (gap ++ rest))

theorem spaced_intercalate {words : List (List Char)} (nonempty : words ≠ []) :
    Spaced words ([' '].intercalate words) := by
  induction words with
  | nil => exact absurd rfl nonempty
  | cons word others ih =>
      cases others with
      | nil =>
          rw [List.intercalate_singleton]
          exact .last word
      | cons next more =>
          have blank : ∀ char ∈ [' '], isBlank char = true := List.forall_mem_singleton.mpr rfl
          rw [List.intercalate_cons_cons, List.append_assoc]
          exact .next word (List.cons_ne_nil _ _) blank (ih (List.cons_ne_nil _ _))

theorem Spaced.words_eq {written : List (List Char)} {text : List Char}
    (spaced : Spaced written text)
    (areWords : ∀ word ∈ written, word ≠ [] ∧ ∀ char ∈ word, isBlank char = false) :
    words text = written := by
  induction spaced with
  | last word =>
      obtain ⟨nonempty, noBlank⟩ := areWords word List.mem_cons_self
      exact words_eq_singleton nonempty noBlank
  | next word apart blank _ ih =>
      obtain ⟨⟨nonempty, noBlank⟩, areWordsToo⟩ := List.forall_mem_cons.mp areWords
      rw [words_append_run apart blank, words_eq_singleton nonempty noBlank, ih areWordsToo]
      rfl

example : collapse "\tApp \n View ".toList = "App View".toList := by decide

end Cascade.Text
