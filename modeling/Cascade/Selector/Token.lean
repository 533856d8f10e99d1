set_option autoImplicit false

/-! Tokens of selectors and context paths: words, dots and runs of white space. Offsets count
the bytes of the text in UTF-8. -/

namespace Cascade

namespace Text

/-- The ranges of the characters that carry the Unicode property White_Space, first and last code
point of each, in ascending order. -/
def blankRanges : List (Nat × Nat) :=
  [(0x09, 0x0d), (0x20, 0x20), (0x85, 0x85), (0xa0, 0xa0), (0x1680, 0x1680),
   (0x2000, 0x200a), (0x2028, 0x2029), (0x202f, 0x202f), (0x205f, 0x205f), (0x3000, 0x3000)]

def isBlank (char : Char) : Bool :=
  blankRanges.any fun range => range.1 ≤ char.toNat && char.toNat ≤ range.2

theorem isBlank_dot : isBlank '.' = false := by decide

end Text

namespace Selector

inductive Token where
  /-- A longest run of characters that are neither white space nor dots. -/
  | word (text : String) (offset : Nat)
  | dot (offset : Nat)
  /-- A longest run of white space. -/
  | blank
deriving DecidableEq

def isWordChar (char : Char) : Bool := !Text.isBlank char && char != '.'

def byteLength : List Char → Nat
  | [] => 0
  | char :: rest => char.utf8Size + byteLength rest

/-- A place in a text: the characters ahead and the bytes behind. -/
structure Cursor where
  ahead : List Char
  position : Nat
deriving DecidableEq

namespace Cursor

def start (text : String) : Cursor := ⟨text.toList, 0⟩

def skipWhile (cursor : Cursor) (inRun : Char → Bool) : Cursor :=
  ⟨cursor.ahead.dropWhile inRun,
   cursor.position + byteLength (cursor.ahead.takeWhile inRun)⟩

def next (cursor : Cursor) : Option Token × Cursor :=
  match cursor.ahead with
  | [] => (none, cursor)
  | char :: rest =>
      if Text.isBlank char then (some .blank, cursor.skipWhile Text.isBlank)
      else if char = '.' then (some (.dot cursor.position), ⟨rest, cursor.position + char.utf8Size⟩)
      else
        (some (.word (String.ofList (cursor.ahead.takeWhile isWordChar)) cursor.position),
         cursor.skipWhile isWordChar)

theorem length_dropWhile_lt {inRun : Char → Bool} {char : Char} (rest : List Char)
    (inside : inRun char = true) :
    ((char :: rest).dropWhile inRun).length < (char :: rest).length := by
  rw [List.dropWhile_cons_of_pos inside, List.length_cons]
  have := (List.dropWhile_sublist inRun (l := rest)).length_le
  omega

/-- A token takes at least one character. -/
theorem next_shorter {cursor after : Cursor} {token : Token}
    (read : cursor.next = (some token, after)) : after.ahead.length < cursor.ahead.length := by
  obtain ⟨ahead, position⟩ := cursor
  cases ahead with
  | nil => simp [next] at read
  | cons char rest =>
      simp only [next] at read
      split at read
      · next blank =>
          cases read
          exact length_dropWhile_lt rest blank
      · next notBlank =>
          split at read
          · cases read
            simp
          · next notDot =>
              cases read
              exact length_dropWhile_lt rest (by simp [isWordChar, notBlank, notDot])

/-- The tokens ahead, each with the place behind it. -/
def trace (cursor : Cursor) : List (Token × Cursor) :=
  match _read : cursor.next with
  | (none, _) => []
  | (some token, after) => (token, after) :: after.trace
termination_by cursor.ahead.length
decreasing_by exact next_shorter _read

end Cursor

def tokens (text : String) : List Token := (Cursor.start text).trace.map Prod.fst

end Selector

end Cascade
