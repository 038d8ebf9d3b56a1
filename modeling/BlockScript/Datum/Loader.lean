import BlockScript.Datum.Cursor

/-!
# Loading

A source is loaded with a cursor. The loader looks at one byte at a time where a datum may begin,
moves through a run by characters, and jumps through comments and strings. Every step of it looks at
the source at its cursor, and then moves the cursor.
-/

namespace BlockScript

namespace Loader

inductive Quoting where
  | quotes
  /-- Braces nest; `depth` counts those still open. -/
  | braces (depth : Nat)

/-- The characters that end, nest or escape. -/
def Quoting.stops : Quoting → Char → Bool
  | quotes, c => c == '"' || c == '^' || c == '\n'
  | braces _, c => c == '\x7b' || c == '\x7d' || c == '^'

/-- What comes next. Whatever began earlier did so at the byte `start`. -/
inductive Task where
  /-- A datum, a delimiter, blank space or a comment. -/
  | datum
  /-- The characters of a run; where they end, it is cut out. -/
  | run (start : Nat)
  /-- The inside of a string, of which `out` has been taken in. -/
  | string (start : Nat) (quoting : Quoting) (out : String)
  /-- The piece of a string from `runStart` to the cursor, where that stop was found. -/
  | piece (start runStart : Nat) (quoting : Quoting) (out : String) (found : Option UInt8)
  /-- The character behind a caret. -/
  | escape (start : Nat) (quoting : Quoting) (out : String)

end Loader

structure Loader where
  cursor : Cursor
  task : Loader.Task := .datum
  /-- The data of the innermost open container, newest first. -/
  items : List Datum := []
  /-- The open containers, innermost first. -/
  enclosing : List Opened := []

namespace Loader

inductive Outcome where
  | goesOn (next : Loader)
  | ends (result : Except ReadError (List Datum))

/-- The error of what began at `start` and reaches to the cursor. -/
def error (l : Loader) (cause : ReadError.Cause) (start : Nat) : Outcome :=
  .ends (Reader.fail cause start (max l.cursor.pos (start + 1)))

def moveTo (l : Loader) (cursor : Cursor) (task : Task) : Outcome := .goesOn { l with cursor, task }

def add (l : Loader) (item : Datum) : Outcome :=
  .goesOn { l with task := .datum, items := item :: l.items }

def openContainer (l : Loader) (delimiter : Delimiter) : Outcome :=
  .goesOn
    { cursor := l.cursor.advance
      enclosing := ⟨delimiter, l.cursor.pos, l.items⟩ :: l.enclosing }

/-- Closes the innermost container with the closer that began at `start`. -/
def close (l : Loader) (delimiter : Delimiter) (start : Nat) : Outcome :=
  match l.enclosing with
  | opened :: outer =>
    if opened.delimiter = delimiter then
      .goesOn { l with
        items := delimiter.datum l.items.reverse :: opened.before
        enclosing := outer }
    else l.error (.unexpectedDelimiter delimiter.closer) start
  | [] => l.error (.unexpectedDelimiter delimiter.closer) start

def finish (l : Loader) : Outcome :=
  match l.enclosing with
  | [] => .ends (.ok l.items.reverse)
  | opened :: _ =>
    .ends (Reader.fail (.unclosedDelimiter opened.delimiter.closer) opened.start (opened.start + 1))

def datum (l : Loader) : Outcome :=
  match l.cursor.current with
  | none => l.finish
  | some byte =>
    match Char.ofUInt8 byte with
    | ' ' | '\t' | '\n' | '\r' => l.moveTo l.cursor.advance .datum
    | ';' => l.moveTo l.cursor.skipLine .datum
    | '[' => l.openContainer .square
    | '(' => l.openContainer .round
    | ']' => { l with cursor := l.cursor.advance }.close .square l.cursor.pos
    | ')' => { l with cursor := l.cursor.advance }.close .round l.cursor.pos
    | '\x7d' => l.error (.unexpectedDelimiter '\x7d') l.cursor.pos
    | '"' => l.moveTo l.cursor.advance (.string l.cursor.pos .quotes "")
    | '\x7b' => l.moveTo l.cursor.advance (.string l.cursor.pos (.braces 1) "")
    | _ => l.moveTo l.cursor (.run l.cursor.pos)

/-- Makes a datum of a run. -/
def classify (l : Loader) (text : String) (start : Nat) : Outcome :=
  match Datum.ofRun text.toList with
  | .ok item => l.add item
  | .error cause => .ends (Reader.fail cause start (start + text.utf8ByteSize))

def run (l : Loader) (start : Nat) : Outcome :=
  if l.cursor.current.any fun byte => !Reader.isDelimiter (Char.ofUInt8 byte) then
    l.moveTo l.cursor.advanceChar (.run start)
  else l.classify (l.cursor.sliceFrom start) start

/-- Ends, nests or escapes, as the byte at the cursor says. -/
def stop (l : Loader) (start : Nat) (quoting : Quoting) (out : String) (found : Option UInt8) :
    Outcome :=
  match quoting with
  | .quotes =>
    match found.map Char.ofUInt8 with
    | some '"' => { l with cursor := l.cursor.advance }.add (.text out)
    | some '^' => l.moveTo l.cursor.advance (.escape start .quotes out)
    | _ => l.error .unterminatedString start
  | .braces depth =>
    match found.map Char.ofUInt8 with
    | some '\x7b' => l.moveTo l.cursor.advance
        (.string start (.braces (depth + 1)) (out.push '\x7b'))
    | some '\x7d' =>
      if depth - 1 = 0 then { l with cursor := l.cursor.advance }.add (.text out)
      else l.moveTo l.cursor.advance (.string start (.braces (depth - 1)) (out.push '\x7d'))
    | some '^' => l.moveTo l.cursor.advance (.escape start (.braces depth) out)
    | _ => l.error .unterminatedString start

/-- Takes in the character behind a caret, if there is one. -/
def escape (l : Loader) (start : Nat) (quoting : Quoting) (out : String) : Outcome :=
  match l.cursor.currentChar with
  | some c => l.moveTo l.cursor.advanceChar (.string start quoting (out.push (Reader.unescape c)))
  | none => l.moveTo l.cursor (.string start quoting out)

def step (l : Loader) : Outcome :=
  match l.task with
  | .datum => l.datum
  | .run start => l.run start
  | .string start quoting out =>
    let skipped := l.cursor.skipTo quoting.stops
    l.moveTo skipped.1 (.piece start l.cursor.pos quoting out skipped.2)
  | .piece start runStart quoting out found =>
    l.stop start quoting (out ++ l.cursor.sliceFrom runStart) found
  | .escape start quoting out => l.escape start quoting out

/-! ## Loading ends -/

/-- A run does not end where it began, and a stop is a byte of the source. -/
def Task.Fits (cursor : Cursor) : Task → Prop
  | run start => start ≤ cursor.pos ∧ (start = cursor.pos →
      ∃ byte, cursor.current = some byte ∧ Reader.isDelimiter (Char.ofUInt8 byte) = false)
  | piece _ _ _ _ found => ∀ byte, found = some byte → cursor.current = some byte
  | _ => True

def Fits (l : Loader) : Prop := l.task.Fits l.cursor

/-- Orders the tasks at one byte. A run that has begun there comes last, as it is certain to move
on. -/
def Task.rank (pos : Nat) : Task → Nat
  | datum | string .. => 1
  | run start => if start = pos then 0 else 2
  | piece .. => 0
  | escape .. => 2

/-- Falls with every step. -/
def left (l : Loader) : Nat := 3 * (l.cursor.size - l.cursor.pos) + l.task.rank l.cursor.pos

/-- What a step makes of the loader goes on to an end. -/
structure Advances (l next : Loader) : Prop where
  fits : next.Fits
  left : next.left < l.left

section Advances

variable {l next : Loader} {start : Nat}

theorem Task.rank_le (task : Task) (pos : Nat) : task.rank pos ≤ 2 := by
  unfold rank
  split
  · omega
  · omega
  · split <;> omega
  · omega
  · omega

theorem advances_of_lt (same : next.cursor.source = l.cursor.source)
    (inside : l.cursor.pos < l.cursor.size) (moves : l.cursor.pos < next.cursor.pos)
    (fits : next.Fits) : Advances l next := by
  refine ⟨fits, ?_⟩
  have rank := next.task.rank_le next.cursor.pos
  have size : next.cursor.size = l.cursor.size := congrArg String.utf8ByteSize same
  unfold left
  omega

theorem moveTo_advances {cursor : Cursor} {task : Task}
    (stepped : l.moveTo cursor task = .goesOn next) (same : cursor.source = l.cursor.source)
    (inside : l.cursor.pos < l.cursor.size) (moves : l.cursor.pos < cursor.pos)
    (fits : task.Fits cursor) : Advances l next := by
  cases stepped
  exact advances_of_lt same inside moves fits

theorem close_advances {delimiter : Delimiter} (task : l.task = .datum)
    (inside : l.cursor.pos < l.cursor.size) (moves : l.cursor.pos < l.cursor.advance.pos)
    (stepped : { l with cursor := l.cursor.advance }.close delimiter start = .goesOn next) :
    Advances l next := by
  have fits : l.task.Fits l.cursor.advance := by rw [task]; trivial
  unfold close at stepped
  split at stepped
  · split at stepped
    · cases stepped
      exact advances_of_lt rfl inside moves fits
    · cases stepped
  · cases stepped

theorem datum_advances (task : l.task = .datum) (stepped : l.datum = .goesOn next) :
    Advances l next := by
  unfold datum at stepped
  split at stepped
  · unfold finish at stepped
    split at stepped <;> cases stepped
  · next byte here =>
    have inside := Cursor.lt_size here
    have moves := Cursor.lt_advance here
    split at stepped
    · exact moveTo_advances stepped rfl inside moves trivial
    · exact moveTo_advances stepped rfl inside moves trivial
    · exact moveTo_advances stepped rfl inside moves trivial
    · exact moveTo_advances stepped rfl inside moves trivial
    · next semicolon =>
      have moves := Cursor.lt_skipLine here (by rw [semicolon]; decide)
      exact moveTo_advances stepped rfl inside moves trivial
    · cases stepped; exact advances_of_lt rfl inside moves trivial
    · cases stepped; exact advances_of_lt rfl inside moves trivial
    · exact close_advances task inside moves stepped
    · exact close_advances task inside moves stepped
    · cases stepped
    · exact moveTo_advances stepped rfl inside moves trivial
    · exact moveTo_advances stepped rfl inside moves trivial
    · next continues =>
      cases stepped
      have : Reader.isDelimiter (Char.ofUInt8 byte) = false := by simp_all [Reader.isDelimiter]
      refine ⟨⟨Nat.le_refl _, fun _ => ⟨byte, here, this⟩⟩, ?_⟩
      simp [left, task, Task.rank]

theorem classify_advances {text : String} (task : l.task = .run start)
    (begun : start ≠ l.cursor.pos) (stepped : l.classify text start = .goesOn next) :
    Advances l next := by
  unfold classify at stepped
  split at stepped
  · cases stepped
    exact ⟨trivial, by simp [left, task, Task.rank, begun]⟩
  · cases stepped

theorem run_advances (task : l.task = .run start) (fits : (Task.run start).Fits l.cursor)
    (stepped : l.run start = .goesOn next) : Advances l next := by
  unfold run at stepped
  split at stepped
  · next continues =>
    cases here : l.cursor.current with
    | none => simp [here] at continues
    | some byte =>
      have moves := Cursor.lt_advanceChar here
      have begun : start < l.cursor.advanceChar.pos := Nat.lt_of_le_of_lt fits.1 moves
      exact moveTo_advances stepped rfl (Cursor.lt_size here) moves
        ⟨Nat.le_of_lt begun, fun same => absurd same (Nat.ne_of_lt begun)⟩
  · next ends =>
    apply classify_advances task _ stepped
    intro begins
    obtain ⟨byte, here, plain⟩ := fits.2 begins
    simp [here, plain] at ends

theorem stop_advances {quoting : Quoting} {out : String} {found : Option UInt8}
    (fits : ∀ byte, found = some byte → l.cursor.current = some byte)
    (stepped : l.stop start quoting out found = .goesOn next) : Advances l next := by
  cases found with
  | none => cases quoting <;> cases stepped
  | some byte =>
    have here := fits byte rfl
    have inside := Cursor.lt_size here
    have moves := Cursor.lt_advance here
    unfold stop at stepped
    split at stepped
    · split at stepped
      · cases stepped; exact advances_of_lt rfl inside moves trivial
      · exact moveTo_advances stepped rfl inside moves trivial
      · cases stepped
    · split at stepped
      · exact moveTo_advances stepped rfl inside moves trivial
      · split at stepped
        · cases stepped; exact advances_of_lt rfl inside moves trivial
        · exact moveTo_advances stepped rfl inside moves trivial
      · exact moveTo_advances stepped rfl inside moves trivial
      · cases stepped

theorem escape_advances {quoting : Quoting} {out : String}
    (task : l.task = .escape start quoting out)
    (stepped : l.escape start quoting out = .goesOn next) : Advances l next := by
  unfold escape at stepped
  split at stepped
  · next here =>
    have inside := Cursor.lt_size_of_currentChar here
    exact moveTo_advances stepped rfl inside (Cursor.lt_advanceChar_of_lt inside) trivial
  · cases stepped
    exact ⟨trivial, by simp [left, task, Task.rank]⟩

theorem step_advances (fits : l.Fits) (stepped : l.step = .goesOn next) : Advances l next := by
  unfold Fits at fits
  unfold step at stepped
  cases task : l.task with rw [task] at fits stepped
  | datum => exact datum_advances task stepped
  | run start => exact run_advances task fits stepped
  | string start quoting out =>
    cases stepped
    refine ⟨fun byte found => Cursor.skipTo_current found, ?_⟩
    have skipped := l.cursor.skipTo_left quoting.stops
    unfold left
    rw [task]
    dsimp only [Task.rank]
    omega
  | piece start runStart quoting out found => exact stop_advances fits stepped
  | escape start quoting out => exact escape_advances task stepped

end Advances

/-- Goes on to the end. -/
def result (l : Loader) (fits : l.Fits) : Except ReadError (List Datum) :=
  match stepped : l.step with
  | .goesOn next => next.result (step_advances fits stepped).fits
  | .ends result => result
termination_by l.left
decreasing_by exact (step_advances fits stepped).left

def initial (source : String) : Loader := { cursor := { source } }

theorem initial_fits (source : String) : (initial source).Fits := trivial

/-- The data that a source holds. -/
def load (source : String) : Except ReadError (List Datum) :=
  (initial source).result (initial_fits source)

end Loader

end BlockScript
