import Cascade.Proofs.Tiling
import Mathlib.Data.String.Basic
import Mathlib.Logic.Function.Iterate
set_option autoImplicit false

/-! Calls for tokens, one after another. The places where they start cut the text, between
characters, into slices. A token is a dot or a longest run of its class, and fills its slice. -/

namespace Cascade

/-- The part of a text between two byte offsets. -/
def Text.slice (text : String) (start stop : Nat) : String :=
  String.Pos.Raw.extract text ⟨start⟩ ⟨stop⟩

namespace Selector

/-- The cursor after a number of calls for a token. -/
def Cursor.afterCalls (cursor : Cursor) (calls : Nat) : Cursor :=
  (fun place => place.next.2)^[calls] cursor

/-- The answer to the call that follows a number of calls. -/
def answerAfter (text : String) (calls : Nat) : Option Token :=
  ((Cursor.start text).afterCalls calls).next.1

/-- The bytes that a number of calls leave behind. -/
def offsetAfter (text : String) (calls : Nat) : Nat :=
  ((Cursor.start text).afterCalls calls).position

/-- A run of a class fills the slice, and the characters next to the slice are not of the class. -/
structure LongestRun (inRun : Char → Bool) (text : String) (start stop : Nat) : Prop where
  nonempty : Text.slice text start stop ≠ ""
  inside : ∀ char ∈ (Text.slice text start stop).toList, inRun char = true
  notBefore : ∀ char ∈ (Text.slice text 0 start).toList.getLast?, inRun char = false
  notAfter : ∀ char ∈ (Text.slice text stop text.utf8ByteSize).toList.head?, inRun char = false

/-- What the slice of a token has to be. -/
def StandsFor (text : String) (start stop : Nat) : Token → Prop
  | .blank => LongestRun Text.isBlank text start stop
  | .dot offset => offset = start ∧ Text.slice text start stop = "."
  | .word value offset => offset = start ∧ value = Text.slice text start stop ∧
      LongestRun isWordChar text start stop

variable {text : String} {before run after behind : List Char} {inRun : Char → Bool}

/-! ### Offsets -/

theorem byteLength_eq_utf8Len (chars : List Char) : byteLength chars = String.utf8Len chars := by
  induction chars with
  | nil => rfl
  | cons char rest ih => rw [byteLength, String.utf8Len_cons, ih, Nat.add_comm]

theorem byteLength_toList (text : String) : byteLength text.toList = text.utf8ByteSize := by
  rw [byteLength_eq_utf8Len, String.utf8Len_toList]

theorem byteLength_pos (nonempty : run ≠ []) : 0 < byteLength run := by
  cases run with
  | nil => exact absurd rfl nonempty
  | cons char rest =>
      rw [byteLength]
      exact Nat.add_pos_left char.utf8Size_pos _

theorem slice_eq (split : text.toList = before ++ run ++ after) :
    Text.slice text (byteLength before) (byteLength (before ++ run)) = String.ofList run := by
  have same : text = String.ofList (before ++ run ++ after) := by
    rw [← split, String.ofList_toList]
  rw [Text.slice, byteLength_append, byteLength_eq_utf8Len, byteLength_eq_utf8Len, same]
  exact String.extract_of_valid before run after

theorem slice_self (text : String) (offset : Nat) : Text.slice text offset offset = "" := by
  rw [Text.slice, String.Pos.Raw.extract, if_pos (Nat.le_refl offset)]

theorem isValid_byteLength (split : text.toList = behind ++ after) :
    (⟨byteLength behind⟩ : String.Pos.Raw).IsValid text := by
  refine String.Pos.Raw.isValid_iff_exists_append.mpr
    ⟨String.ofList behind, String.ofList after, ?_, ?_⟩
  · rw [← String.ofList_append, ← split, String.ofList_toList]
  · rw [String.rawEndPos_ofList, byteLength_eq_utf8Len]

/-! ### Cursors in a text -/

/-- No run of the class goes on from behind a place to what is ahead of it. -/
def Parted (inRun : Char → Bool) (behind ahead : List Char) : Prop :=
  ∀ last ∈ behind.getLast?, inRun last = true → Stops inRun ahead

/-- The cursor has the text behind it up to its position, and does not stand inside a run. -/
structure Cursor.Passed (cursor : Cursor) (text : String) (behind : List Char) : Prop where
  split : text.toList = behind ++ cursor.ahead
  position_eq : cursor.position = byteLength behind
  blanks : Parted Text.isBlank behind cursor.ahead
  words : Parted isWordChar behind cursor.ahead

theorem parted_of_stops (behind : List Char) (stops : Stops inRun after) :
    Parted inRun behind after :=
  fun _ _ _ => stops

theorem parted_of_outside (behind after : List Char) (nonempty : run ≠ [])
    (outside : ∀ char ∈ run, inRun char = false) : Parted inRun (behind ++ run) after := by
  intro last isLast inside
  rw [List.getLast?_append_of_ne_nil behind nonempty] at isLast
  rw [outside last (List.mem_of_mem_getLast? isLast)] at inside
  cases inside

theorem not_stops_append (nonempty : run ≠ []) (inside : ∀ char ∈ run, inRun char = true) :
    ¬Stops inRun (run ++ after) := by
  intro stops
  cases run with
  | nil => exact absurd rfl nonempty
  | cons first others =>
      have outside := stops first rfl
      rw [inside first List.mem_cons_self] at outside
      cases outside

theorem isWordChar_of_isBlank {char : Char} (blank : Text.isBlank char = true) :
    isWordChar char = false := by
  rw [isWordChar, blank]
  rfl

theorem isWordChar_dot : isWordChar '.' = false := by decide

variable {cursor next : Cursor} {token : Token}

theorem Takes.nonempty {position : Nat} (takes : Takes position token run after) : run ≠ [] := by
  cases takes with
  | blank nonempty _ _ => exact nonempty
  | dot => exact List.cons_ne_nil _ _
  | word nonempty _ _ => exact nonempty

/-- Where the run of a token ends, no run goes on: its own has ended, and it has nothing of the
other class. -/
theorem Takes.parted {position : Nat} (takes : Takes position token run after)
    (behind : List Char) :
    Parted Text.isBlank (behind ++ run) after ∧ Parted isWordChar (behind ++ run) after := by
  cases takes with
  | blank nonempty blank longest =>
      exact ⟨parted_of_stops _ longest, parted_of_outside behind after nonempty
        fun char inside => isWordChar_of_isBlank (blank char inside)⟩
  | dot =>
      have nonempty : ['.'] ≠ [] := List.cons_ne_nil _ _
      have noBlank : ∀ char ∈ ['.'], Text.isBlank char = false :=
        List.forall_mem_singleton.mpr Text.isBlank_dot
      have noWord : ∀ char ∈ ['.'], isWordChar char = false :=
        List.forall_mem_singleton.mpr isWordChar_dot
      exact ⟨parted_of_outside behind after nonempty noBlank,
        parted_of_outside behind after nonempty noWord⟩
  | word nonempty inWord longest =>
      exact ⟨parted_of_outside behind after nonempty (noBlank_of_word inWord),
        parted_of_stops _ longest⟩

theorem passed_start (text : String) : (Cursor.start text).Passed text [] where
  split := rfl
  position_eq := rfl
  blanks _ isLast := by cases isLast
  words _ isLast := by cases isLast

namespace Cursor.Passed

/-- A call for a token carries the run of the token over from ahead to behind. -/
theorem next_token (passed : cursor.Passed text behind) (read : cursor.next = (some token, next)) :
    ∃ run, cursor.ahead = run ++ next.ahead ∧ Takes cursor.position token run next.ahead ∧
      next.Passed text (behind ++ run) := by
  obtain ⟨run, ahead, moved, takes⟩ := takes_of_next read
  have split : text.toList = (behind ++ run) ++ next.ahead := by
    rw [List.append_assoc, ← ahead]
    exact passed.split
  have position : next.position = byteLength (behind ++ run) := by
    rw [byteLength_append, ← passed.position_eq]
    exact moved
  obtain ⟨blanks, words⟩ := takes.parted behind
  exact ⟨run, ahead, takes, split, position, blanks, words⟩

theorem slice_behind (passed : cursor.Passed text behind) :
    Text.slice text 0 cursor.position = String.ofList behind := by
  have split : text.toList = [] ++ behind ++ cursor.ahead := passed.split
  rw [passed.position_eq]
  exact slice_eq split

theorem slice_ahead (passed : cursor.Passed text behind) :
    Text.slice text cursor.position text.utf8ByteSize = String.ofList cursor.ahead := by
  have split : text.toList = behind ++ cursor.ahead ++ [] := by
    rw [List.append_nil]
    exact passed.split
  rw [passed.position_eq, ← byteLength_toList, passed.split]
  exact slice_eq split

theorem slice_between (passed : cursor.Passed text behind)
    (nextPassed : next.Passed text (behind ++ run)) :
    Text.slice text cursor.position next.position = String.ofList run := by
  rw [passed.position_eq, nextPassed.position_eq]
  exact slice_eq nextPassed.split

theorem longestRun (passed : cursor.Passed text behind)
    (nextPassed : next.Passed text (behind ++ run)) (nonempty : run ≠ [])
    (inside : ∀ char ∈ run, inRun char = true) (longest : Stops inRun next.ahead)
    (parted : Parted inRun behind (run ++ next.ahead)) :
    LongestRun inRun text cursor.position next.position where
  nonempty := by
    rw [passed.slice_between nextPassed]
    exact fun empty => nonempty (String.ofList_eq_empty_iff.mp empty)
  inside := by
    rw [passed.slice_between nextPassed, String.toList_ofList]
    exact inside
  notBefore char isLast := by
    rw [passed.slice_behind, String.toList_ofList] at isLast
    refine Bool.eq_false_iff.mpr fun inClass => ?_
    exact not_stops_append nonempty inside (parted char isLast inClass)
  notAfter := by
    rw [nextPassed.slice_ahead, String.toList_ofList]
    exact longest

theorem standsFor (passed : cursor.Passed text behind) (ahead : cursor.ahead = run ++ next.ahead)
    (takes : Takes cursor.position token run next.ahead)
    (nextPassed : next.Passed text (behind ++ run)) :
    StandsFor text cursor.position next.position token := by
  have slice := passed.slice_between nextPassed
  have blanks := passed.blanks
  have words := passed.words
  rw [ahead] at blanks words
  cases takes with
  | blank nonempty blank longest =>
      exact passed.longestRun nextPassed nonempty blank longest blanks
  | dot => exact ⟨rfl, slice⟩
  | word nonempty inWord longest =>
      exact ⟨rfl, slice.symm, passed.longestRun nextPassed nonempty inWord longest words⟩

theorem position_lt (passed : cursor.Passed text behind)
    (takes : Takes cursor.position token run next.ahead)
    (nextPassed : next.Passed text (behind ++ run)) : cursor.position < next.position := by
  rw [passed.position_eq, nextPassed.position_eq, byteLength_append]
  exact Nat.lt_add_of_pos_right (byteLength_pos takes.nonempty)

end Cursor.Passed

/-! ### Runs of calls -/

theorem afterCalls_succ (cursor : Cursor) (calls : Nat) :
    cursor.afterCalls (calls + 1) = (cursor.afterCalls calls).next.2 :=
  Function.iterate_succ_apply' _ calls cursor

theorem afterCalls_next (cursor : Cursor) (calls : Nat) :
    cursor.afterCalls (calls + 1) = cursor.next.2.afterCalls calls :=
  Function.iterate_succ_apply _ calls cursor

theorem afterCalls_of_end (atEnd : cursor.next.1 = none) (calls : Nat) :
    cursor.afterCalls calls = cursor := by
  have read : cursor.next = (none, cursor.next.2) := Prod.ext atEnd rfl
  exact Function.iterate_fixed (at_end_of_next read).2 calls

/-- The tokens of a cursor are the answers to calls, up to the first call without an answer. -/
theorem getElem?_trace (cursor : Cursor) (calls : Nat) :
    (cursor.trace.map Prod.fst)[calls]? = (cursor.afterCalls calls).next.1 := by
  fun_induction Cursor.trace cursor generalizing calls with
  | case1 cursor next read =>
      have atEnd : cursor.next.1 = none := by rw [read]
      rw [afterCalls_of_end atEnd, atEnd]
      rfl
  | case2 cursor token next read ih =>
      cases calls with
      | zero =>
          rw [Cursor.afterCalls, Function.iterate_zero_apply, read]
          rfl
      | succ calls =>
          rw [List.map_cons, List.getElem?_cons_succ, ih calls, afterCalls_next, read]

theorem answerAfter_eq (text : String) (calls : Nat) :
    answerAfter text calls = (tokens text)[calls]? :=
  (getElem?_trace (Cursor.start text) calls).symm

/-- The slices that a number of calls have cut off. -/
def slices (text : String) (calls : Nat) : List String :=
  (List.range calls).map fun call =>
    Text.slice text (offsetAfter text call) (offsetAfter text (call + 1))

theorem slices_succ (text : String) (calls : Nat) :
    slices text (calls + 1) =
      slices text calls ++
        [Text.slice text (offsetAfter text calls) (offsetAfter text (calls + 1))] := by
  rw [slices, List.range_succ, List.map_append]
  rfl

/-- After any number of calls, the slices cut off so far make up the text behind the cursor. -/
theorem passed_afterCalls (text : String) (calls : Nat) :
    ∃ behind, ((Cursor.start text).afterCalls calls).Passed text behind ∧
      String.join (slices text calls) = String.ofList behind := by
  induction calls with
  | zero => exact ⟨[], passed_start text, rfl⟩
  | succ calls ih =>
      obtain ⟨behind, passed, joined⟩ := ih
      rw [slices_succ, String.join_append, joined, String.join_cons, String.join_nil,
        String.append_empty, offsetAfter, offsetAfter, afterCalls_succ]
      cases read : ((Cursor.start text).afterCalls calls).next with
      | mk answer next =>
          cases answer with
          | none =>
              rw [(at_end_of_next read).2, slice_self, String.append_empty]
              exact ⟨behind, passed, rfl⟩
          | some token =>
              obtain ⟨run, _, _, nextPassed⟩ := passed.next_token read
              refine ⟨behind ++ run, nextPassed, ?_⟩
              rw [passed.slice_between nextPassed, String.ofList_append]

theorem covered_of_end {calls : Nat} (atEnd : answerAfter text calls = none) :
    offsetAfter text calls = text.utf8ByteSize ∧ String.join (slices text calls) = text := by
  obtain ⟨behind, passed, joined⟩ := passed_afterCalls text calls
  have split := passed.split
  rw [(at_end_of_next (Prod.ext atEnd rfl)).1, List.append_nil] at split
  constructor
  · rw [offsetAfter, passed.position_eq, ← split, byteLength_toList]
  · rw [joined, ← split, String.ofList_toList]

theorem standsFor_of_answer {calls : Nat} (answered : answerAfter text calls = some token) :
    offsetAfter text calls < offsetAfter text (calls + 1) ∧
      StandsFor text (offsetAfter text calls) (offsetAfter text (calls + 1)) token := by
  obtain ⟨behind, passed, _⟩ := passed_afterCalls text calls
  obtain ⟨run, ahead, takes, nextPassed⟩ := passed.next_token (Prod.ext answered rfl)
  rw [offsetAfter, offsetAfter, afterCalls_succ]
  exact ⟨passed.position_lt takes nextPassed, passed.standsFor ahead takes nextPassed⟩

/-! ### Neighbours -/

/-- The class of the characters that a token is a run of. -/
def Token.runClass : Token → Option (Char → Bool)
  | .blank => some Text.isBlank
  | .word _ _ => some isWordChar
  | .dot _ => none

theorem Takes.of_runClass {position : Nat} (takes : Takes position token run after)
    (ofClass : token.runClass = some inRun) :
    run ≠ [] ∧ (∀ char ∈ run, inRun char = true) ∧ Stops inRun after := by
  cases takes with
  | blank nonempty blank longest =>
      cases ofClass
      exact ⟨nonempty, blank, longest⟩
  | dot => cases ofClass
  | word nonempty inWord longest =>
      cases ofClass
      exact ⟨nonempty, inWord, longest⟩

/-- A token that is the longest run of its class is not followed by another of the class. -/
theorem runClass_changes {calls : Nat} {following : Token}
    (answered : answerAfter text calls = some token)
    (answeredNext : answerAfter text (calls + 1) = some following)
    (ofClass : token.runClass = some inRun) : following.runClass ≠ some inRun := by
  intro sameClass
  rw [answerAfter, afterCalls_succ] at answeredNext
  obtain ⟨_, _, _, takes⟩ := takes_of_next (Prod.ext answered rfl)
  obtain ⟨run, ahead, _, takesNext⟩ := takes_of_next (Prod.ext answeredNext rfl)
  obtain ⟨_, _, stops⟩ := takes.of_runClass ofClass
  obtain ⟨nonempty, inside, _⟩ := takesNext.of_runClass sameClass
  rw [ahead] at stops
  exact not_stops_append nonempty inside stops

/-- The calls for tokens end, and stay, at the end of the text. Until then every call moves on to
another boundary between characters, and answers with the token that stands for the slice of the
text up to there. The slices make up the text. -/
theorem tokens_tile_text (text : String) :
    (∀ calls, answerAfter text calls = (tokens text)[calls]?) ∧
    (∀ calls ≥ (tokens text).length,
      answerAfter text calls = none ∧ offsetAfter text calls = text.utf8ByteSize ∧
        (Cursor.start text).afterCalls (calls + 1) = (Cursor.start text).afterCalls calls) ∧
    (∀ calls, (⟨offsetAfter text calls⟩ : String.Pos.Raw).IsValid text ∧
      Text.slice text (offsetAfter text calls) text.utf8ByteSize =
        String.ofList ((Cursor.start text).afterCalls calls).ahead) ∧
    (∀ calls token, answerAfter text calls = some token →
      offsetAfter text calls < offsetAfter text (calls + 1) ∧
        StandsFor text (offsetAfter text calls) (offsetAfter text (calls + 1)) token) ∧
    String.join (slices text (tokens text).length) = text ∧
    (∀ calls, answerAfter text calls = some .blank → answerAfter text (calls + 1) ≠ some .blank) ∧
    (∀ calls value start following later, answerAfter text calls = some (.word value start) →
      answerAfter text (calls + 1) ≠ some (.word following later)) := by
  have ends : ∀ calls ≥ (tokens text).length, answerAfter text calls = none := by
    intro calls enough
    rw [answerAfter_eq, List.getElem?_eq_none enough]
  refine ⟨answerAfter_eq text, ?_, ?_, fun calls token => standsFor_of_answer,
    (covered_of_end (ends _ (Nat.le_refl _))).2, ?_, ?_⟩
  · intro calls enough
    have atEnd := ends calls enough
    refine ⟨atEnd, (covered_of_end atEnd).1, ?_⟩
    rw [afterCalls_succ]
    exact (at_end_of_next (Prod.ext atEnd rfl)).2
  · intro calls
    obtain ⟨behind, passed, _⟩ := passed_afterCalls text calls
    refine ⟨?_, passed.slice_ahead⟩
    rw [offsetAfter, passed.position_eq]
    exact isValid_byteLength passed.split
  · intro calls answered answeredNext
    exact runClass_changes answered answeredNext rfl rfl
  · intro calls value start following later answered answeredNext
    exact runClass_changes answered answeredNext rfl rfl

/-- The first character takes two bytes, so that the dot stands at offset 2. -/
example : slices "é.b  c" 5 = ["é", ".", "b", "  ", "c"] ∧ offsetAfter "é.b  c" 1 = 2 := by cbv

end Selector

end Cascade
