import BlockScript.Datum.Reader

/-!
# Cursors

A cursor stands at a byte of a source in UTF-8. All characters that structure a source are ASCII, so
it looks at single bytes, and jumps to the next byte of a few. Text is cut out of the source between
two boundaries of characters only.
-/

namespace BlockScript

structure Cursor where
  source : String
  pos : Nat := 0

namespace Cursor

def size (c : Cursor) : Nat := c.source.utf8ByteSize

def bytes (c : Cursor) : List UInt8 := c.source.toByteArray.data.toList

/-- The byte at the cursor; none at the end. -/
def current (c : Cursor) : Option UInt8 := c.bytes[c.pos]?

/-- The bytes from the cursor on. -/
def remaining (c : Cursor) : List UInt8 := c.bytes.drop c.pos

def advance (c : Cursor) : Cursor := { c with pos := min (c.pos + 1) c.size }

/-- The text between two bytes, unless one of them is inside of a character. -/
def cut? (c : Cursor) (start stop : Nat) : Option String :=
  if start ≤ stop ∧ String.Pos.Raw.IsValid c.source ⟨start⟩ ∧
      String.Pos.Raw.IsValid c.source ⟨stop⟩ then
    some (String.Pos.Raw.extract c.source ⟨start⟩ ⟨stop⟩)
  else none

/-- The text from there to the cursor, and the empty text where none can be cut out. -/
def sliceFrom (c : Cursor) (start : Nat) : String := (c.cut? start c.pos).getD ""

/-- The character at the cursor; none at the end, and inside of a character. -/
def currentChar (c : Cursor) : Option Char :=
  (c.cut? c.pos c.size).bind fun rest => rest.toList.head?

/-- Moves past a character, or past a byte where there is none. -/
def advanceChar (c : Cursor) : Cursor :=
  { c with pos := min (c.pos + (c.currentChar.map Char.utf8Size).getD 1) c.size }

/-- Moves to the end of the line. -/
def skipLine (c : Cursor) : Cursor :=
  { c with
    pos := c.pos + (c.remaining.findIdx? ((· == '\n') ∘ Char.ofUInt8)).getD c.remaining.length }

/-- Moves to the next byte of some, which is the one found, or to the end. -/
def skipTo (c : Cursor) (stops : Char → Bool) : Cursor × Option UInt8 :=
  match c.remaining.findIdx? (stops ∘ Char.ofUInt8) with
  | some offset =>
    let next := { c with pos := c.pos + offset }
    (next, next.current)
  | none => ({ c with pos := c.size }, none)

/-! ## Moving on -/

variable {c : Cursor} {byte : UInt8}

theorem length_bytes (c : Cursor) : c.bytes.length = c.size := String.size_toByteArray

theorem lt_size (here : c.current = some byte) : c.pos < c.size := by
  obtain ⟨inside, -⟩ := List.getElem?_eq_some_iff.mp here
  rwa [length_bytes] at inside

theorem lt_advance (here : c.current = some byte) : c.pos < c.advance.pos := by
  have inside := lt_size here
  unfold advance
  dsimp only
  omega

theorem lt_advanceChar_of_lt (inside : c.pos < c.size) : c.pos < c.advanceChar.pos := by
  have moves : 0 < (c.currentChar.map Char.utf8Size).getD 1 := by
    cases c.currentChar with
    | none => exact Nat.one_pos
    | some next => exact next.utf8Size_pos
  unfold advanceChar
  dsimp only
  omega

theorem lt_advanceChar (here : c.current = some byte) : c.pos < c.advanceChar.pos :=
  lt_advanceChar_of_lt (lt_size here)

theorem remaining_eq (here : c.current = some byte) :
    c.remaining = byte :: c.bytes.drop (c.pos + 1) := by
  obtain ⟨inside, same⟩ := List.getElem?_eq_some_iff.mp here
  rw [remaining, List.drop_eq_getElem_cons inside, same]

theorem lt_skipLine (here : c.current = some byte) (inLine : Char.ofUInt8 byte ≠ '\n') :
    c.pos < c.skipLine.pos := by
  unfold skipLine
  rw [remaining_eq here, List.findIdx?_cons, if_neg (by simpa using inLine)]
  cases List.findIdx? _ _ <;> simp

theorem lt_size_of_currentChar {next : Char} (here : c.currentChar = some next) :
    c.pos < c.size := by
  unfold currentChar cut? at here
  split at here
  · next valid =>
    apply Nat.lt_of_le_of_ne valid.1
    intro ends
    have empty : String.Pos.Raw.extract c.source ⟨c.size⟩ ⟨c.size⟩ = "" := if_pos (Nat.le_refl _)
    rw [ends, empty] at here
    cases here
  · cases here

theorem skipTo_left (c : Cursor) (stops : Char → Bool) :
    (c.skipTo stops).1.size - (c.skipTo stops).1.pos ≤ c.size - c.pos := by
  unfold skipTo
  split
  · simp [size]; omega
  · simp [size]

theorem skipTo_current {stops : Char → Bool} (found : (c.skipTo stops).2 = some byte) :
    (c.skipTo stops).1.current = some byte := by
  unfold skipTo at found ⊢
  split at found
  · exact found
  · cases found

end Cursor

end BlockScript
