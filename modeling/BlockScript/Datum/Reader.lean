import BlockScript.Datum.Run

/-!
# Reading

Source text is read one character at a time. The reader's state holds the byte position, what the
current character belongs to, the data read so far in the innermost open block or paren, and the
containers around it. Reading a text is a fold over its characters, so reading `s ++ t` is reading
`t` from the state that `s` leaves behind, and the first error in the text is the one reported.
-/

namespace BlockScript

/-- The two pairs of delimiters: of blocks and of parens. -/
inductive Delimiter where
  | square | round
deriving DecidableEq, Repr

namespace Delimiter

def closer : Delimiter → Char
  | square => ']'
  | round => ')'

def datum : Delimiter → List Datum → Datum
  | square, items => .block items
  | round, items => .paren items

end Delimiter

/-- A block or paren that waits for its closer. -/
structure Opened where
  delimiter : Delimiter
  start : Nat
  /-- The data before the opener, newest first. -/
  before : List Datum

namespace Reader

/-- What the current character belongs to. Texts are collected newest character first. -/
inductive Mode where
  | between
  | comment
  | run (start : Nat) (chars : List Char)
  /-- A string in quotes; `escaped` right after a caret. -/
  | quoted (start : Nat) (chars : List Char) (escaped : Bool)
  /-- A string in braces, which nest; `depth` counts those still open. -/
  | braced (start depth : Nat) (chars : List Char) (escaped : Bool)

end Reader

structure Reader where
  /-- Byte offset of the next character. -/
  pos : Nat := 0
  mode : Reader.Mode := .between
  /-- The data of the innermost open container, newest first. -/
  items : List Datum := []
  /-- The open containers, innermost first. -/
  enclosing : List Opened := []

namespace Reader

def isDelimiter (c : Char) : Bool :=
  c ∈ [' ', '\t', '\n', '\r', '[', ']', '(', ')', '"', '\x7b', '\x7d', ';']

/-- The character that a caret and `c` stand for. -/
def unescape (c : Char) : Char :=
  if c = '/' then '\n' else if c = '-' then '\t' else c

def fail {α : Type} (cause : ReadError.Cause) (start stop : Nat) : Except ReadError α :=
  .error ⟨cause, .ofOffsets start stop⟩

/-- Adds a datum to the innermost open container. -/
def add (r : Reader) (item : Datum) : Reader :=
  { r with items := item :: r.items, mode := .between }

def addText (r : Reader) (chars : List Char) : Reader := r.add (.text (String.ofList chars.reverse))

def addRun (r : Reader) (start : Nat) (chars : List Char) : Except ReadError Reader :=
  match Datum.ofRun chars.reverse with
  | .ok item => .ok (r.add item)
  | .error cause => fail cause start r.pos

def openContainer (r : Reader) (delimiter : Delimiter) : Reader :=
  { r with mode := .between, items := [], enclosing := ⟨delimiter, r.pos, r.items⟩ :: r.enclosing }

/-- Closes the innermost container, which must have been opened by the same pair. -/
def closeContainer (r : Reader) (delimiter : Delimiter) : Except ReadError Reader :=
  match r.enclosing with
  | opened :: outer =>
    if opened.delimiter = delimiter then
      .ok { r with
        mode := .between
        items := delimiter.datum r.items.reverse :: opened.before
        enclosing := outer }
    else fail (.unexpectedDelimiter delimiter.closer) r.pos (r.pos + 1)
  | [] => fail (.unexpectedDelimiter delimiter.closer) r.pos (r.pos + 1)

/-- Reads a character that no run, string or comment continues into. -/
def start (r : Reader) (c : Char) : Except ReadError Reader :=
  match c with
  | ' ' | '\t' | '\n' | '\r' => .ok { r with mode := .between }
  | ';' => .ok { r with mode := .comment }
  | '[' => .ok (r.openContainer .square)
  | '(' => .ok (r.openContainer .round)
  | ']' => r.closeContainer .square
  | ')' => r.closeContainer .round
  | '\x7d' => fail (.unexpectedDelimiter c) r.pos (r.pos + 1)
  | '"' => .ok { r with mode := .quoted r.pos [] false }
  | '\x7b' => .ok { r with mode := .braced r.pos 1 [] false }
  | _ => .ok { r with mode := .run r.pos [c] }

/-- Reads a character at the reader's position, which stays where it is. -/
def read (r : Reader) (c : Char) : Except ReadError Reader :=
  match r.mode with
  | .between => r.start c
  | .comment => .ok (if c = '\n' then { r with mode := .between } else r)
  | .run start chars =>
    if isDelimiter c then do (← r.addRun start chars).start c
    else .ok { r with mode := .run start (c :: chars) }
  | .quoted start chars true => .ok { r with mode := .quoted start (unescape c :: chars) false }
  | .quoted start chars false =>
    match c with
    | '"' => .ok (r.addText chars)
    | '^' => .ok { r with mode := .quoted start chars true }
    | '\n' => fail .unterminatedString start r.pos
    | _ => .ok { r with mode := .quoted start (c :: chars) false }
  | .braced start depth chars true =>
    .ok { r with mode := .braced start depth (unescape c :: chars) false }
  | .braced start depth chars false =>
    match c with
    | '\x7b' => .ok { r with mode := .braced start (depth + 1) (c :: chars) false }
    | '\x7d' =>
      .ok (if depth = 1 then r.addText chars
        else { r with mode := .braced start (depth - 1) (c :: chars) false })
    | '^' => .ok { r with mode := .braced start depth chars true }
    | _ => .ok { r with mode := .braced start depth (c :: chars) false }

/-- Reads a character and moves past it. -/
def step (r : Reader) (c : Char) : Except ReadError Reader :=
  (r.read c).map fun next => { next with pos := r.pos + c.utf8Size }

/-- Ends what the last character belongs to: a run ends, a string is unterminated. -/
def endMode (r : Reader) : Except ReadError Reader :=
  match r.mode with
  | .between | .comment => .ok r
  | .run start chars => r.addRun start chars
  | .quoted start _ _ => fail .unterminatedString start r.pos
  | .braced start _ _ _ => fail .unterminatedString start r.pos

/-- Ends the text; no container may be open. -/
def finish (r : Reader) : Except ReadError (List Datum) := do
  let r ← r.endMode
  match r.enclosing with
  | [] => .ok r.items.reverse
  | opened :: _ => fail (.unclosedDelimiter opened.delimiter.closer) opened.start (opened.start + 1)

end Reader

def Datum.read (source : String) : Except ReadError (List Datum) :=
  (source.toList.foldlM Reader.step {}).bind Reader.finish

end BlockScript
