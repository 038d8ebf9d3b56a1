import Mathlib.Data.String.Basic
import BlockScript.Datum.Cursor

/-!
# Where a cursor stands

A cursor is on a boundary of characters if what is before it is a text and what is behind it is a
text. A byte below 128 occurs in UTF-8 only as the character that it stands for, so looking for such
a byte is looking for that character, and each move of the cursor takes it to a boundary again.
-/

namespace BlockScript

open String (utf8Len utf8EncodeChar)

/-! ## Bytes of a character -/

theorem encode_of_le {x : Char} (small : x.val.toNat ≤ 127) :
    utf8EncodeChar x = [.ofNat x.val.toNat] :=
  if_pos small

theorem ofUInt8_ofNat {x : Char} (small : x.val.toNat ≤ 127) :
    Char.ofUInt8 (.ofNat x.val.toNat) = x := by
  refine Char.ext (UInt32.toNat_inj.mp ?_)
  show (UInt8.ofNat x.val.toNat).toUInt32.toNat = x.val.toNat
  rw [UInt8.toNat_toUInt32, UInt8.toNat_ofNat']
  omega

theorem le_of_mem_encode {x : Char} {byte : UInt8} (large : ¬ x.val.toNat ≤ 127)
    (member : byte ∈ utf8EncodeChar x) : 128 ≤ byte.toNat := by
  simp only [utf8EncodeChar, if_neg large] at member
  split at member
  · simp only [List.mem_cons, List.not_mem_nil, or_false] at member
    rcases member with rfl | rfl <;> rw [UInt8.toNat_ofNat'] <;> omega
  · split at member
    · simp only [List.mem_cons, List.not_mem_nil, or_false] at member
      rcases member with rfl | rfl | rfl <;> rw [UInt8.toNat_ofNat'] <;> omega
    · simp only [List.mem_cons, List.not_mem_nil, or_false] at member
      rcases member with rfl | rfl | rfl | rfl <;> rw [UInt8.toNat_ofNat'] <;> omega

/-- A byte below 128 is the character that it stands for. -/
theorem ofUInt8_of_mem_encode {x : Char} {byte : UInt8} (member : byte ∈ utf8EncodeChar x)
    (ascii : byte.toNat < 128) : Char.ofUInt8 byte = x := by
  by_cases small : x.val.toNat ≤ 127
  · rw [encode_of_le small, List.mem_singleton] at member
    rw [member, ofUInt8_ofNat small]
  · have large := le_of_mem_encode small member
    omega

/-- What a byte looks like alone, and the character that it begins. -/
def LooksLike (seen x : Char) : Prop := seen = x ∨ 128 ≤ seen.toNat ∧ 128 ≤ x.toNat

theorem exists_encode (x : Char) : ∃ byte more, utf8EncodeChar x = byte :: more ∧
    LooksLike (Char.ofUInt8 byte) x := by
  cases bytes : utf8EncodeChar x with
  | nil =>
    have size := String.length_utf8EncodeChar x
    rw [bytes] at size
    exact absurd size (Nat.ne_of_lt x.utf8Size_pos)
  | cons byte more =>
    have member : byte ∈ utf8EncodeChar x := bytes ▸ List.mem_cons_self
    refine ⟨byte, more, rfl, ?_⟩
    by_cases small : x.val.toNat ≤ 127
    · rw [encode_of_le small] at bytes
      cases bytes
      exact .inl (ofUInt8_ofNat small)
    · exact .inr ⟨le_of_mem_encode small member, Nat.lt_of_not_le small⟩

def Ascii (p : Char → Bool) : Prop := ∀ x, p x = true → x.toNat < 128

theorem LooksLike.apply {p : Char → Bool} (ascii : Ascii p) {seen x : Char}
    (looks : LooksLike seen x) : p seen = p x := by
  rcases looks with rfl | ⟨seen_, x_⟩
  · rfl
  · have left : p seen = false := Bool.eq_false_iff.mpr fun holds => by
      have := ascii seen holds
      omega
    have right : p x = false := Bool.eq_false_iff.mpr fun holds => by
      have := ascii x holds
      omega
    rw [left, right]

theorem LooksLike.eq_of_lt {seen x : Char} (looks : LooksLike seen x) (ascii : x.toNat < 128) :
    seen = x := by
  rcases looks with rfl | ⟨-, large⟩
  · rfl
  · omega

theorem LooksLike.eq_of_seen {seen x c : Char} (looks : LooksLike seen x) (same : seen = c)
    (ascii : c.toNat < 128) : x = c := by
  rcases looks with rfl | ⟨large, -⟩
  · exact same
  · rw [same] at large
    omega

/-- Looking for a byte is looking for its character. -/
theorem findIdx?_encode {p : Char → Bool} (ascii : Ascii p) {piece rest : List Char}
    (before : ∀ x ∈ piece, p x = false) (stop : ∀ x, rest.head? = some x → p x = true) :
    ((piece ++ rest).flatMap utf8EncodeChar).findIdx? (p ∘ Char.ofUInt8) =
      if rest = [] then none else some (utf8Len piece) := by
  induction piece with
  | nil =>
    cases rest with
    | nil => rfl
    | cons x rest =>
      obtain ⟨byte, more, bytes, looks⟩ := exists_encode x
      have found : p (Char.ofUInt8 byte) = true := (looks.apply ascii).trans (stop x rfl)
      rw [List.nil_append, List.flatMap_cons, bytes, List.cons_append, List.findIdx?_cons,
        Function.comp_apply, if_pos found]
      rfl
  | cons x piece ih =>
    have none : (utf8EncodeChar x).findIdx? (p ∘ Char.ofUInt8) = none := by
      refine List.findIdx?_eq_none_iff.mpr fun byte member => ?_
      refine Bool.eq_false_iff.mpr fun holds => ?_
      rw [Function.comp_apply, ofUInt8_of_mem_encode member (ascii _ holds),
        before x List.mem_cons_self] at holds
      cases holds
    rw [List.cons_append, List.flatMap_cons, List.findIdx?_append, none,
      ih fun y member => before y (List.mem_cons_of_mem _ member), String.length_utf8EncodeChar]
    by_cases ends : rest = []
    · rw [if_pos ends, if_pos ends]; rfl
    · rw [if_neg ends, if_neg ends]; rfl

namespace Cursor

/-- A cursor on a boundary, with what is before it and what is behind it. -/
structure At (c : Cursor) (before behind : List Char) : Prop where
  whole : before ++ behind = c.source.toList
  pos : c.pos = utf8Len before

variable {c : Cursor} {before behind : List Char} {x : Char}

theorem bytes_eq (c : Cursor) : c.bytes = c.source.toList.flatMap utf8EncodeChar := by
  have bytes := String.toByteArray_ofList (l := c.source.toList)
  rw [String.ofList_toList] at bytes
  rw [Cursor.bytes, bytes, List.utf8Encode, List.toList_data_toByteArray]

theorem length_encode (cs : List Char) : (cs.flatMap utf8EncodeChar).length = utf8Len cs := by
  induction cs with
  | nil => rfl
  | cons x cs ih =>
    rw [List.flatMap_cons, List.length_append, ih, String.length_utf8EncodeChar,
      String.utf8Len_cons, Nat.add_comm]

theorem At.remaining (here : c.At before behind) :
    c.remaining = behind.flatMap utf8EncodeChar := by
  rw [Cursor.remaining, bytes_eq, ← here.whole, List.flatMap_append, here.pos, ← length_encode,
    List.drop_left]

theorem At.size (here : c.At before behind) : c.size = utf8Len before + utf8Len behind := by
  rw [Cursor.size, ← String.utf8Len_toList, ← here.whole, String.utf8Len_append]

theorem At.isValid (here : c.At before behind) : String.Pos.Raw.IsValid c.source ⟨c.pos⟩ := by
  refine String.Pos.Raw.isValid_iff_exists_append.mpr
    ⟨String.ofList before, String.ofList behind, ?_, ?_⟩
  · rw [← String.ofList_append, here.whole, String.ofList_toList]
  · rw [here.pos, String.rawEndPos_ofList]

theorem At.append (piece : List Char) (here : c.At before (piece ++ behind)) {next : Cursor}
    (same : next.source = c.source) (pos : next.pos = c.pos + utf8Len piece) :
    next.At (before ++ piece) behind where
  whole := by rw [List.append_assoc, here.whole, same]
  pos := by rw [pos, here.pos, String.utf8Len_append]

/-! ## What the cursor sees -/

theorem cut?_eq {piece rest : List Char} (whole : before ++ piece ++ rest = c.source.toList) :
    c.cut? (utf8Len before) (utf8Len before + utf8Len piece) = some (String.ofList piece) := by
  have start : ({ c with pos := utf8Len before } : Cursor).At before (piece ++ rest) :=
    ⟨by rw [← List.append_assoc, whole], rfl⟩
  have stop :
      ({ c with pos := utf8Len before + utf8Len piece } : Cursor).At (before ++ piece) rest :=
    ⟨whole, (String.utf8Len_append _ _).symm⟩
  have text := String.extract_of_valid before piece rest
  rw [whole, String.ofList_toList] at text
  rw [Cursor.cut?, if_pos ⟨Nat.le_add_right _ _, start.isValid, stop.isValid⟩, text]

theorem At.sliceFrom {piece : List Char} (here : c.At (before ++ piece) behind) :
    c.sliceFrom (utf8Len before) = String.ofList piece := by
  rw [Cursor.sliceFrom, here.pos, String.utf8Len_append, cut?_eq here.whole, Option.getD_some]

theorem At.currentChar (here : c.At before behind) : c.currentChar = behind.head? := by
  have whole : before ++ behind ++ [] = c.source.toList := (List.append_nil _).trans here.whole
  have rest := cut?_eq whole
  rw [Cursor.currentChar, here.size, here.pos, rest, Option.bind_some, String.toList_ofList]

theorem At.current_nil (here : c.At before []) : c.current = none := by
  rw [Cursor.current, ← List.head?_drop]
  exact congrArg List.head? here.remaining

theorem At.current_cons (here : c.At before (x :: behind)) :
    ∃ byte, c.current = some byte ∧ LooksLike (Char.ofUInt8 byte) x := by
  obtain ⟨byte, more, bytes, looks⟩ := exists_encode x
  refine ⟨byte, ?_, looks⟩
  rw [Cursor.current, ← List.head?_drop]
  have remaining := here.remaining
  rw [List.flatMap_cons, bytes] at remaining
  exact congrArg List.head? remaining

/-! ## Where the cursor goes -/

theorem At.advance (here : c.At before (x :: behind)) (ascii : x.toNat < 128) :
    c.advance.At (before ++ [x]) behind := by
  have size := here.size
  have one : x.utf8Size = 1 := Char.utf8Size_eq_one_iff.mpr (UInt32.le_iff_toNat_le.mpr (by
    show x.toNat ≤ 127
    omega))
  have pos := here.pos
  refine here.append [x] rfl ?_
  rw [String.utf8Len_cons, one] at size ⊢
  rw [String.utf8Len_nil, Cursor.advance]
  dsimp only
  omega

theorem At.advanceChar (here : c.At before (x :: behind)) :
    c.advanceChar.At (before ++ [x]) behind := by
  have size := here.size
  have pos := here.pos
  refine here.append [x] rfl ?_
  rw [Cursor.advanceChar, here.currentChar, List.head?_cons, Option.map_some, Option.getD_some]
  rw [String.utf8Len_cons] at size ⊢
  rw [String.utf8Len_nil]
  dsimp only
  omega

theorem At.skipLine {line : List Char} (here : c.At before (line ++ behind))
    (inside : ∀ x ∈ line, (x == '\n') = false)
    (stop : ∀ x, behind.head? = some x → (x == '\n') = true) :
    c.skipLine.At (before ++ line) behind := by
  have ascii : Ascii (· == '\n') := fun x holds => by
    rw [beq_iff_eq.mp holds]
    decide
  refine here.append line rfl ?_
  rw [Cursor.skipLine, here.remaining, findIdx?_encode ascii inside stop, length_encode]
  by_cases ends : behind = []
  · rw [if_pos ends, ends, List.append_nil]
    rfl
  · rw [if_neg ends]
    rfl

theorem At.skipTo {stops : Char → Bool} {piece : List Char} (ascii : Ascii stops)
    (here : c.At before (piece ++ behind)) (inside : ∀ x ∈ piece, stops x = false)
    (stop : ∀ x, behind.head? = some x → stops x = true) :
    (c.skipTo stops).1.At (before ++ piece) behind ∧
      (c.skipTo stops).2.map Char.ofUInt8 = behind.head? := by
  have found := here.remaining ▸ findIdx?_encode ascii inside stop
  unfold Cursor.skipTo
  cases behind with
  | nil =>
    rw [if_pos rfl] at found
    rw [found]
    refine ⟨here.append piece rfl ?_, rfl⟩
    rw [here.size, here.pos, List.append_nil]
  | cons x rest =>
    rw [if_neg (List.cons_ne_nil _ _)] at found
    rw [found]
    have there :
        ({ c with pos := c.pos + utf8Len piece } : Cursor).At (before ++ piece) (x :: rest) :=
      here.append piece rfl rfl
    obtain ⟨byte, current, looks⟩ := there.current_cons
    have seen : Char.ofUInt8 byte = x := looks.eq_of_lt (ascii x (stop x rfl))
    refine ⟨there, (congrArg (Option.map Char.ofUInt8) current).trans ?_⟩
    rw [Option.map_some, seen, List.head?_cons]

end Cursor

end BlockScript
