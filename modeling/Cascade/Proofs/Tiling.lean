import Cascade.Selector.Token
set_option autoImplicit false

/-! Tokens laid along the text. Every token stands for its own characters, the runs among them are
the longest possible, and together the tokens cover the text without a gap. -/

namespace Cascade.Selector

theorem isWordChar_iff (char : Char) :
    isWordChar char = true ↔ Text.isBlank char = false ∧ char ≠ '.' := by
  simp [isWordChar]

theorem noBlank_of_word {run : List Char} (inWord : ∀ char ∈ run, isWordChar char = true) :
    ∀ char ∈ run, Text.isBlank char = false :=
  fun char inside => ((isWordChar_iff char).mp (inWord char inside)).1

theorem byteLength_append (front back : List Char) :
    byteLength (front ++ back) = byteLength front + byteLength back := by
  induction front with
  | nil => rw [List.nil_append, byteLength, Nat.zero_add]
  | cons char rest ih => rw [List.cons_append, byteLength, byteLength, ih, Nat.add_assoc]

/-- A run ends here: what comes next does not belong to it. -/
def Stops (inRun : Char → Bool) (rest : List Char) : Prop :=
  ∀ char ∈ rest.head?, inRun char = false

theorem stops_dropWhile (inRun : Char → Bool) (chars : List Char) :
    Stops inRun (chars.dropWhile inRun) := by
  intro char isFirst
  have stopped := List.head?_dropWhile_not inRun chars
  rw [Option.mem_def.mp isFirst] at stopped
  exact stopped

/-- The tokens of the characters that follow a position, each with the characters it stands for. -/
inductive Tiles : Nat → List Char → List Token → Prop where
  | done (position : Nat) : Tiles position [] []
  | blank {position : Nat} {run rest : List Char} {tokens : List Token} (nonempty : run ≠ [])
      (inRun : ∀ char ∈ run, Text.isBlank char = true) (longest : Stops Text.isBlank rest)
      (continued : Tiles (position + byteLength run) rest tokens) :
      Tiles position (run ++ rest) (.blank :: tokens)
  | dot {position : Nat} {rest : List Char} {tokens : List Token}
      (continued : Tiles (position + byteLength ['.']) rest tokens) :
      Tiles position ('.' :: rest) (.dot position :: tokens)
  | word {position : Nat} {run rest : List Char} {tokens : List Token} (nonempty : run ≠ [])
      (inRun : ∀ char ∈ run, isWordChar char = true) (longest : Stops isWordChar rest)
      (continued : Tiles (position + byteLength run) rest tokens) :
      Tiles position (run ++ rest) (.word (String.ofList run) position :: tokens)

/-! ### What one call takes -/

/-- A token at a position takes the run from the characters ahead and leaves the rest. -/
inductive Takes (position : Nat) : Token → (run rest : List Char) → Prop where
  | blank {run rest : List Char} (nonempty : run ≠ [])
      (inRun : ∀ char ∈ run, Text.isBlank char = true) (longest : Stops Text.isBlank rest) :
      Takes position .blank run rest
  | dot (rest : List Char) : Takes position (.dot position) ['.'] rest
  | word {run rest : List Char} (nonempty : run ≠ [])
      (inRun : ∀ char ∈ run, isWordChar char = true) (longest : Stops isWordChar rest) :
      Takes position (.word (String.ofList run) position) run rest

private theorem takeWhile_ne_nil {inRun : Char → Bool} {char : Char} {rest : List Char}
    (inside : inRun char = true) : (char :: rest).takeWhile inRun ≠ [] := by
  rw [List.takeWhile_cons_of_pos inside]
  exact List.cons_ne_nil _ _

theorem takes_of_next {cursor after : Cursor} {token : Token}
    (read : cursor.next = (some token, after)) :
    ∃ run, cursor.ahead = run ++ after.ahead ∧
      after.position = cursor.position + byteLength run ∧
      Takes cursor.position token run after.ahead := by
  obtain ⟨ahead, position⟩ := cursor
  cases ahead with
  | nil => cases read
  | cons char rest =>
      simp only [Cursor.next] at read
      split at read
      · next blank =>
          cases read
          exact ⟨_, List.takeWhile_append_dropWhile.symm, rfl, .blank (takeWhile_ne_nil blank)
            (List.all_eq_true.mp List.all_takeWhile) (stops_dropWhile Text.isBlank _)⟩
      · next notBlank =>
          split at read
          · next isDot =>
              cases read
              cases isDot
              exact ⟨['.'], rfl, rfl, .dot rest⟩
          · next notDot =>
              cases read
              have inWord : isWordChar char = true :=
                (isWordChar_iff char).mpr ⟨Bool.eq_false_iff.mpr notBlank, notDot⟩
              exact ⟨_, List.takeWhile_append_dropWhile.symm, rfl, .word (takeWhile_ne_nil inWord)
                (List.all_eq_true.mp List.all_takeWhile) (stops_dropWhile isWordChar _)⟩

/-- Only at the end of the text is there no token, and there a call stays where it is. -/
theorem at_end_of_next {cursor after : Cursor} (read : cursor.next = (none, after)) :
    cursor.ahead = [] ∧ after = cursor := by
  obtain ⟨ahead, position⟩ := cursor
  cases ahead with
  | nil =>
      cases read
      exact ⟨rfl, rfl⟩
  | cons char rest =>
      simp only [Cursor.next] at read
      split at read
      · cases read
      · split at read
        · cases read
        · cases read

/-! ### The tokens of a cursor -/

theorem tiles_of_next {cursor after : Cursor} {token : Token} {tokens : List Token}
    (read : cursor.next = (some token, after))
    (continued : Tiles after.position after.ahead tokens) :
    Tiles cursor.position cursor.ahead (token :: tokens) := by
  obtain ⟨run, split, moved, takes⟩ := takes_of_next read
  rw [moved] at continued
  rw [split]
  cases takes with
  | blank nonempty inRun longest => exact .blank nonempty inRun longest continued
  | dot rest => exact .dot continued
  | word nonempty inRun longest => exact .word nonempty inRun longest continued

theorem tiles_trace (cursor : Cursor) :
    Tiles cursor.position cursor.ahead (cursor.trace.map Prod.fst) := by
  fun_induction Cursor.trace cursor with
  | case1 cursor after read =>
      rw [(at_end_of_next read).1]
      exact .done cursor.position
  | case2 cursor token after read ih => exact tiles_of_next read ih

theorem tiles_tokens (text : String) : Tiles 0 text.toList (tokens text) :=
  tiles_trace (Cursor.start text)

end Cascade.Selector
