import Mathlib.Logic.Relation
import BlockScript.Datum.Loader
import BlockScript.Proofs.CursorPlaces
import BlockScript.Proofs.Lexemes

/-!
# Loading with a cursor

The loader reads what a fold over the characters of the source reads. Between its steps it stands on
a boundary of characters, and so do all the places that it has kept to cut text out from there: what
it cuts out is the text of the source.
-/

namespace BlockScript

open String (utf8Len)

namespace Loader

/-! ## What the loader has taken in -/

def Quoting.mode (start : Nat) (chars : List Char) (escaped : Bool) : Quoting → Reader.Mode
  | quotes => .quoted start chars.reverse escaped
  | braces depth => .braced start depth chars.reverse escaped

def Quoting.Open : Quoting → Prop
  | quotes => True
  | braces depth => 0 < depth

def runMode (start : Nat) (chars : List Char) : Reader.Mode :=
  if chars = [] then .between else .run start chars.reverse

structure Inside (before : List Char) (start : Nat) (quoting : Quoting) : Prop where
  begun : start < utf8Len before
  opened : quoting.Open

/-- What the texts on both sides of the cursor say about a task, and the mode of a reader there. -/
def Task.Follows (before behind : List Char) : Task → Reader.Mode → Prop
  | datum, mode => mode = .between
  | run start, mode => ∃ ahead chars, before = ahead ++ chars ∧ start = utf8Len ahead ∧
      mode = runMode start chars ∧
      (chars = [] → ∃ c, behind.head? = some c ∧ Reader.isDelimiter c = false)
  | string start quoting out, mode => Inside before start quoting ∧
      mode = quoting.mode start out.toList false
  | piece start runStart quoting out found, mode => Inside before start quoting ∧
      found.map Char.ofUInt8 = behind.head? ∧
      (∀ c, behind.head? = some c → quoting.stops c = true) ∧
      ∃ ahead chars, before = ahead ++ chars ∧ runStart = utf8Len ahead ∧
        mode = quoting.mode start (out.toList ++ chars) false
  | escape start quoting out, mode => Inside before start quoting ∧
      mode = quoting.mode start out.toList true

structure Follows (l : Loader) (before behind : List Char) (mode : Reader.Mode) : Prop where
  cursor : l.cursor.At before behind
  task : l.task.Follows before behind mode

def reader (l : Loader) (mode : Reader.Mode) : Reader := ⟨l.cursor.pos, mode, l.items, l.enclosing⟩

def Outcome.Agrees (l : Loader) (before behind : List Char) (mode : Reader.Mode) : Outcome → Prop
  | goesOn next => ∃ taken rest mode', behind = taken ++ rest ∧
      next.Follows (before ++ taken) rest mode' ∧
      (l.reader mode).outcome behind = (next.reader mode').outcome rest
  | ends result => (l.reader mode).outcome behind = result

section Steps

variable {l next : Loader} {before behind rest : List Char} {mode mode' : Reader.Mode} {c : Char}
  {start : Nat}

theorem ascii_isDelimiter : Ascii Reader.isDelimiter := by
  intro c delimiter
  simp only [Reader.isDelimiter, List.mem_cons, List.not_mem_nil, or_false, decide_eq_true_eq]
    at delimiter
  rcases delimiter with rfl | rfl | rfl | rfl | rfl | rfl | rfl | rfl | rfl | rfl | rfl | rfl <;>
    decide

theorem Quoting.ascii_stops (quoting : Quoting) : Ascii quoting.stops := by
  intro c stop
  cases quoting <;> simp only [stops, Bool.or_eq_true, beq_iff_eq] at stop <;>
    rcases stop with (rfl | rfl) | rfl <;> decide

/-- One character is taken in, and a reader reads it. -/
theorem agrees_read (mode' : Reader.Mode) (here : l.cursor.At before (c :: rest))
    (cursor : next.cursor.At (before ++ [c]) rest)
    (task : next.task.Follows (before ++ [c]) rest mode')
    (read : (l.reader mode).read c = .ok { next.reader mode' with pos := l.cursor.pos }) :
    (Outcome.goesOn next).Agrees l before (c :: rest) mode := by
  refine ⟨[c], rest, mode', rfl, ⟨cursor, task⟩, ?_⟩
  have pos : next.cursor.pos = l.cursor.pos + c.utf8Size := by
    rw [cursor.pos, here.pos, String.utf8Len_append, String.utf8Len_cons, String.utf8Len_nil,
      Nat.zero_add]
  rw [Reader.outcome_cons read]
  simp only [reader, pos]

/-- Nothing is taken in, and the texts on both sides say enough for the next task. -/
theorem agrees_still (mode' : Reader.Mode) (here : l.cursor.At before behind)
    (cursor : next.cursor = l.cursor)
    (task : next.task.Follows before behind mode')
    (same : (l.reader mode).outcome behind = (next.reader mode').outcome behind) :
    (Outcome.goesOn next).Agrees l before behind mode := by
  refine ⟨[], behind, mode', rfl, ⟨?_, ?_⟩, same⟩
  · rw [cursor, List.append_nil]
    exact here
  · rw [List.append_nil]
    exact task

theorem agrees_error {l' : Loader} {cause : ReadError.Cause} {stop : Nat}
    (read : (l.reader mode).read c = Reader.fail cause start stop)
    (span : stop = max l'.cursor.pos (start + 1)) :
    (l'.error cause start).Agrees l before (c :: rest) mode := by
  unfold error Outcome.Agrees
  rw [← span, Reader.outcome, List.foldlM_cons, Reader.step, read]
  rfl

/-! ### A datum -/

theorem finish_agrees : l.finish.Agrees l before [] .between := by
  have ended : (l.reader .between).endMode = .ok (l.reader .between) := rfl
  unfold finish
  split
  · next none =>
    unfold Outcome.Agrees
    rw [Reader.outcome_nil, Reader.finish, ended]
    simp only [reader, none]
    rfl
  · next opened outer enclosing =>
    unfold Outcome.Agrees
    rw [Reader.outcome_nil, Reader.finish, ended]
    simp only [reader, enclosing]
    rfl

theorem close_agrees (delimiter : Delimiter) (task : l.task = .datum)
    (here : l.cursor.At before (delimiter.closer :: rest)) :
    ({ l with cursor := l.cursor.advance }.close delimiter l.cursor.pos).Agrees l before
      (delimiter.closer :: rest) .between := by
  have closed : (l.reader .between).read delimiter.closer =
      (l.reader .between).closeContainer delimiter := by cases delimiter <;> rfl
  have cursor := here.advance (by cases delimiter <;> decide)
  have span : l.cursor.pos + 1 = max l.cursor.advance.pos (l.cursor.pos + 1) := by
    have size : delimiter.closer.utf8Size = 1 := by cases delimiter <;> rfl
    rw [cursor.pos, String.utf8Len_append, String.utf8Len_cons, size, ← here.pos]
    exact (Nat.max_self _).symm
  unfold Reader.closeContainer at closed
  unfold close
  cases enclosing : l.enclosing with
  | nil =>
    rw [show (l.reader .between).enclosing = [] from enclosing] at closed
    exact agrees_error closed span
  | cons opened outer =>
    rw [show (l.reader .between).enclosing = opened :: outer from enclosing] at closed
    by_cases same : opened.delimiter = delimiter
    · simp only [if_pos same] at closed ⊢
      refine agrees_read _ here cursor ?_ closed
      rw [task]
      rfl
    · simp only [if_neg same] at closed ⊢
      exact agrees_error closed span

theorem skipLine_agrees (here : l.cursor.At before (';' :: rest)) :
    (l.moveTo l.cursor.skipLine .datum).Agrees l before (';' :: rest) .between := by
  let line := ';' :: rest.takeWhile (· != '\n')
  have whole : line ++ rest.dropWhile (· != '\n') = ';' :: rest :=
    congrArg (List.cons ';') List.takeWhile_append_dropWhile
  have skipped : l.cursor.skipLine.At (before ++ line) (rest.dropWhile (· != '\n')) := by
    refine (whole ▸ here).skipLine (List.forall_mem_cons.mpr ⟨rfl, fun c member => ?_⟩) ?_
    · simpa using List.all_eq_true.mp List.all_takeWhile c member
    · intro c first
      have stops := List.head?_dropWhile_not (· != '\n') rest
      rw [first] at stops
      simpa using stops
  have comment : (l.reader .between).read ';' = .ok (l.reader .comment) := rfl
  refine ⟨line, _, .between, whole.symm, ⟨skipped, rfl⟩, ?_⟩
  rw [Reader.outcome_cons comment]
  refine (Reader.outcome_comment _ _ _ _).trans ?_
  have pos : l.cursor.skipLine.pos =
      l.cursor.pos + ';'.utf8Size + utf8Len (rest.takeWhile (· != '\n')) := by
    rw [skipped.pos, here.pos, String.utf8Len_append, String.utf8Len_cons]
    omega
  simp only [reader, pos]

theorem open_agrees (quoting : Quoting) (here : l.cursor.At before (c :: rest))
    (ascii : c.toNat < 128) (opened : quoting.Open)
    (read : (l.reader .between).read c = .ok (l.reader (quoting.mode l.cursor.pos [] false))) :
    (l.moveTo l.cursor.advance (.string l.cursor.pos quoting "")).Agrees l before (c :: rest)
      .between := by
  have begun : l.cursor.pos < utf8Len (before ++ [c]) := by
    have size := c.utf8Size_pos
    rw [here.pos, String.utf8Len_append, String.utf8Len_cons]
    omega
  exact agrees_read _ here (here.advance ascii) ⟨⟨begun, opened⟩, rfl⟩ read

theorem datum_agrees (task : l.task = .datum) (here : l.cursor.At before behind) :
    l.datum.Agrees l before behind .between := by
  cases behind with
  | nil =>
    unfold datum
    rw [here.current_nil]
    exact finish_agrees
  | cons c rest =>
    obtain ⟨byte, current, looks⟩ := here.current_cons
    unfold datum
    simp only [current]
    split
    · next seen =>
      obtain rfl := looks.eq_of_seen seen (by decide)
      exact agrees_read .between here (here.advance (by decide)) rfl rfl
    · next seen =>
      obtain rfl := looks.eq_of_seen seen (by decide)
      exact agrees_read .between here (here.advance (by decide)) rfl rfl
    · next seen =>
      obtain rfl := looks.eq_of_seen seen (by decide)
      exact agrees_read .between here (here.advance (by decide)) rfl rfl
    · next seen =>
      obtain rfl := looks.eq_of_seen seen (by decide)
      exact agrees_read .between here (here.advance (by decide)) rfl rfl
    · next seen =>
      obtain rfl := looks.eq_of_seen seen (by decide)
      exact skipLine_agrees here
    · next seen =>
      obtain rfl := looks.eq_of_seen seen (by decide)
      exact agrees_read .between here (here.advance (by decide)) rfl rfl
    · next seen =>
      obtain rfl := looks.eq_of_seen seen (by decide)
      exact agrees_read .between here (here.advance (by decide)) rfl rfl
    · next seen =>
      obtain rfl := looks.eq_of_seen seen (by decide)
      exact close_agrees .square task here
    · next seen =>
      obtain rfl := looks.eq_of_seen seen (by decide)
      exact close_agrees .round task here
    · next seen =>
      obtain rfl := looks.eq_of_seen seen (by decide)
      exact agrees_error rfl (Nat.max_eq_right (Nat.le_succ _)).symm
    · next seen =>
      obtain rfl := looks.eq_of_seen seen (by decide)
      exact open_agrees .quotes here (by decide) trivial rfl
    · next seen =>
      obtain rfl := looks.eq_of_seen seen (by decide)
      exact open_agrees (.braces 1) here (by decide) Nat.one_pos rfl
    · next blank tab lineEnd return_ comment square round square' round' brace quote brace' =>
      have continues : Reader.isDelimiter c = false := by
        rw [← looks.apply ascii_isDelimiter]
        simp_all [Reader.isDelimiter]
      exact agrees_still .between here rfl
        ⟨before, [], (List.append_nil _).symm, here.pos, rfl, fun _ => ⟨c, rfl, continues⟩⟩ rfl

/-! ### A run -/

theorem runMode_concat (start : Nat) (chars : List Char) (c : Char) :
    runMode start (chars ++ [c]) = .run start (c :: chars.reverse) := by
  rw [runMode, if_neg (by simp), List.reverse_concat]

theorem read_runMode (pos : Nat) (items : List Datum) (enclosing : List Opened)
    {chars : List Char} (begun : chars = [] → start = pos)
    (continues : Reader.isDelimiter c = false) :
    Reader.read ⟨pos, runMode start chars, items, enclosing⟩ c =
      .ok ⟨pos, runMode start (chars ++ [c]), items, enclosing⟩ := by
  rw [runMode_concat, runMode]
  split
  · next none =>
    rw [none, begun none]
    exact Reader.start_of_continues continues
  · simp [Reader.read, continues]

theorem outcome_runMode (start pos : Nat) (items : List Datum) (enclosing : List Opened)
    {chars : List Char} (nonempty : chars ≠ [])
    (ends : ∀ c, behind.head? = some c → Reader.isDelimiter c = true) :
    Reader.outcome ⟨pos, runMode start chars, items, enclosing⟩ behind =
      match Datum.ofRun chars with
      | .ok d => Reader.outcome ⟨pos, .between, d :: items, enclosing⟩ behind
      | .error cause => Reader.fail cause start pos := by
  have taken : behind.takeWhile (!Reader.isDelimiter ·) = [] := by
    cases behind with
    | nil => rfl
    | cons c rest => simp [ends c rfl]
  have left : behind.dropWhile (!Reader.isDelimiter ·) = behind := by
    cases behind with
    | nil => rfl
    | cons c rest => simp [ends c rfl]
  rw [runMode, if_neg nonempty, Reader.outcome_ofRun, taken, left, List.append_nil,
    List.reverse_reverse]
  rfl

theorem classify_agrees {ahead chars : List Char}
    (here : l.cursor.At (ahead ++ chars) behind) (begun : start = utf8Len ahead)
    (nonempty : chars ≠ [])
    (ends : ∀ c, behind.head? = some c → Reader.isDelimiter c = true) :
    (l.classify (l.cursor.sliceFrom start) start).Agrees l (ahead ++ chars) behind
      (runMode start chars) := by
  have read := outcome_runMode start l.cursor.pos l.items l.enclosing nonempty ends
  rw [begun, here.sliceFrom, ← begun]
  unfold classify
  rw [String.toList_ofList]
  cases made : Datum.ofRun chars with
  | ok item =>
    rw [made] at read
    exact agrees_still .between here rfl rfl read
  | error cause =>
    rw [made] at read
    have stop : start + (String.ofList chars).utf8ByteSize = l.cursor.pos := by
      rw [here.pos, String.utf8Len_append, begun, ← String.utf8Len_toList, String.toList_ofList]
    unfold Outcome.Agrees
    rw [stop]
    exact read

theorem run_agrees (task : l.task = .run start) (follows : l.Follows before behind mode) :
    (l.run start).Agrees l before behind mode := by
  have here := follows.cursor
  have said := follows.task
  rw [task] at said
  obtain ⟨ahead, chars, rfl, begun, rfl, fresh⟩ := said
  unfold run
  cases behind with
  | nil =>
    rw [here.current_nil, Option.any_none, if_neg Bool.false_ne_true]
    refine classify_agrees here begun (fun none => ?_) fun c none => by cases none
    obtain ⟨c, first, -⟩ := fresh none
    cases first
  | cons c rest =>
    obtain ⟨byte, current, looks⟩ := here.current_cons
    rw [current, Option.any_some, looks.apply ascii_isDelimiter]
    by_cases continues : Reader.isDelimiter c = false
    · rw [continues, Bool.not_false, if_pos rfl]
      refine agrees_read (runMode start (chars ++ [c])) here here.advanceChar ?_ ?_
      · exact ⟨ahead, chars ++ [c], List.append_assoc _ _ _, begun, rfl,
          fun none => by simp at none⟩
      · refine read_runMode _ _ _ (fun none => ?_) continues
        rw [begun, here.pos, none, List.append_nil]
    · rw [Bool.not_eq_false] at continues
      rw [continues, Bool.not_true, if_neg Bool.false_ne_true]
      refine classify_agrees here begun (fun none => ?_) fun c first => ?_
      · obtain ⟨c', first, plain⟩ := fresh none
        cases first
        rw [continues] at plain
        cases plain
      · cases first
        exact continues

/-! ### A string -/

theorem outcome_string (quoting : Quoting) (start pos : Nat) (items : List Datum)
    (enclosing : List Opened) (chars rest : List Char) {piece : List Char}
    (plain : ∀ c ∈ piece, quoting.stops c = false) :
    Reader.outcome ⟨pos, quoting.mode start chars false, items, enclosing⟩ (piece ++ rest) =
      Reader.outcome ⟨pos + utf8Len piece, quoting.mode start (chars ++ piece) false, items,
        enclosing⟩ rest := by
  induction piece generalizing pos chars with
  | nil => rw [List.append_nil]; rfl
  | cons c piece ih =>
    obtain ⟨first, others⟩ := List.forall_mem_cons.mp plain
    have read : Reader.read ⟨pos, quoting.mode start chars false, items, enclosing⟩ c =
        .ok ⟨pos, quoting.mode start (chars ++ [c]) false, items, enclosing⟩ := by
      cases quoting <;> simp_all [Quoting.stops, Quoting.mode, Reader.read]
    rw [List.cons_append, Reader.outcome_cons read, ih _ _ others, List.append_assoc,
      String.utf8Len_cons, Nat.add_assoc, Nat.add_comm c.utf8Size]
    rfl

theorem skip_agrees {quoting : Quoting} {out : String} (inside : Inside before start quoting)
    (here : l.cursor.At before behind) :
    (l.moveTo (l.cursor.skipTo quoting.stops).1
      (.piece start l.cursor.pos quoting out (l.cursor.skipTo quoting.stops).2)).Agrees l before
      behind (quoting.mode start out.toList false) := by
  have whole :
      behind.takeWhile (!quoting.stops ·) ++ behind.dropWhile (!quoting.stops ·) = behind :=
    List.takeWhile_append_dropWhile
  have plain : ∀ c ∈ behind.takeWhile (!quoting.stops ·), quoting.stops c = false := by
    intro c member
    simpa using List.all_eq_true.mp List.all_takeWhile c member
  have stop :
      ∀ c, (behind.dropWhile (!quoting.stops ·)).head? = some c → quoting.stops c = true := by
    intro c first
    have stops := List.head?_dropWhile_not (!quoting.stops ·) behind
    rw [first] at stops
    simpa using stops
  obtain ⟨skipped, found⟩ := (whole ▸ here).skipTo quoting.ascii_stops plain stop
  refine ⟨_, _, quoting.mode start (out.toList ++ behind.takeWhile (!quoting.stops ·)) false,
    whole.symm, ⟨skipped, ⟨?_, inside.opened⟩, found, stop, before, _, rfl, here.pos, rfl⟩, ?_⟩
  · rw [String.utf8Len_append]
    exact Nat.lt_add_right _ inside.begun
  · have read := outcome_string quoting start l.cursor.pos l.items l.enclosing out.toList
      (behind.dropWhile (!quoting.stops ·)) plain
    rw [whole] at read
    refine read.trans ?_
    simp only [reader, skipped.pos, here.pos, String.utf8Len_append]

theorem unterminated_agrees {quoting : Quoting} (chars : List Char) (escaped : Bool)
    (inside : Inside before start quoting) (here : l.cursor.At before []) :
    (l.error .unterminatedString start).Agrees l before [] (quoting.mode start chars escaped) := by
  have stop : max l.cursor.pos (start + 1) = l.cursor.pos := by
    rw [here.pos]
    exact Nat.max_eq_left inside.begun
  unfold error Outcome.Agrees
  rw [stop]
  cases quoting <;> rfl

theorem Inside.more {quoting quoting' : Quoting} (inside : Inside before start quoting)
    (opened : quoting'.Open) (taken : List Char) : Inside (before ++ taken) start quoting' :=
  ⟨by rw [String.utf8Len_append]; exact Nat.lt_add_right _ inside.begun, opened⟩

theorem ofList_reverse_reverse (out : String) :
    String.ofList out.toList.reverse.reverse = out := by
  rw [List.reverse_reverse, String.ofList_toList]

theorem stopQuotes_agrees {out : String} {found : Option UInt8}
    (inside : Inside before start .quotes) (here : l.cursor.At before (c :: rest))
    (seen : found.map Char.ofUInt8 = some c) (stops : Quoting.quotes.stops c = true) :
    (l.stop start .quotes out found).Agrees l before (c :: rest)
      (Quoting.quotes.mode start out.toList false) := by
  have cursor := here.advance (Quoting.quotes.ascii_stops c stops)
  unfold stop
  rw [seen]
  simp only [Quoting.stops, Bool.or_eq_true, beq_iff_eq] at stops
  rcases stops with (rfl | rfl) | rfl
  · refine agrees_read .between here cursor rfl ?_
    show Except.ok (Reader.addText _ out.toList.reverse) = _
    rw [Reader.addText, ofList_reverse_reverse]
    rfl
  · exact agrees_read _ here cursor ⟨inside.more inside.opened _, rfl⟩ rfl
  · refine agrees_error rfl ?_
    rw [Nat.max_eq_left (here.pos ▸ inside.begun)]
    rfl

theorem stopBraces_agrees {depth : Nat} {out : String} {found : Option UInt8}
    (inside : Inside before start (.braces depth)) (here : l.cursor.At before (c :: rest))
    (seen : found.map Char.ofUInt8 = some c) (stops : (Quoting.braces depth).stops c = true) :
    (l.stop start (.braces depth) out found).Agrees l before (c :: rest)
      ((Quoting.braces depth).mode start out.toList false) := by
  have cursor := here.advance ((Quoting.braces depth).ascii_stops c stops)
  unfold stop
  rw [seen]
  simp only [Quoting.stops, Bool.or_eq_true, beq_iff_eq] at stops
  rcases stops with (rfl | rfl) | rfl
  · have opened : (Quoting.braces (depth + 1)).Open := Nat.succ_pos depth
    refine agrees_read _ here cursor ⟨inside.more opened _, rfl⟩ ?_
    rw [String.toList_push, Quoting.mode, Quoting.mode, List.reverse_concat]
    rfl
  · by_cases last : depth - 1 = 0
    · have one : depth = 1 := Nat.le_antisymm (Nat.sub_eq_zero_iff_le.mp last) inside.opened
      subst one
      refine agrees_read .between here cursor rfl ?_
      show Except.ok (Reader.addText _ out.toList.reverse) = _
      rw [Reader.addText, ofList_reverse_reverse]
      rfl
    · have more : depth ≠ 1 := fun one => last (by rw [one])
      have opened : (Quoting.braces (depth - 1)).Open := Nat.pos_of_ne_zero last
      simp only [if_neg last]
      refine agrees_read _ here cursor ⟨inside.more opened _, rfl⟩ ?_
      rw [String.toList_push, Quoting.mode, Quoting.mode, List.reverse_concat]
      show Except.ok (if depth = 1 then _ else _) = _
      rw [if_neg more]
      rfl
  · exact agrees_read _ here cursor ⟨inside.more inside.opened _, rfl⟩ rfl

theorem stop_agrees {quoting : Quoting} {out : String} {found : Option UInt8}
    (inside : Inside before start quoting) (here : l.cursor.At before behind)
    (seen : found.map Char.ofUInt8 = behind.head?)
    (stops : ∀ c, behind.head? = some c → quoting.stops c = true) :
    (l.stop start quoting out found).Agrees l before behind
      (quoting.mode start out.toList false) := by
  cases behind with
  | nil =>
    have ended := unterminated_agrees out.toList false inside here
    unfold stop
    rw [seen]
    cases quoting <;> exact ended
  | cons c rest =>
    cases quoting with
    | quotes => exact stopQuotes_agrees inside here seen (stops c rfl)
    | braces depth => exact stopBraces_agrees inside here seen (stops c rfl)

theorem piece_agrees {quoting : Quoting} {out : String} {found : Option UInt8} {runStart : Nat}
    (task : l.task = .piece start runStart quoting out found)
    (follows : l.Follows before behind mode) :
    (l.stop start quoting (out ++ l.cursor.sliceFrom runStart) found).Agrees l before behind
      mode := by
  have here := follows.cursor
  have said := follows.task
  rw [task] at said
  obtain ⟨inside, seen, stops, ahead, chars, rfl, begun, rfl⟩ := said
  have text : (out ++ String.ofList chars).toList = out.toList ++ chars := by
    rw [String.toList_append, String.toList_ofList]
  rw [begun, here.sliceFrom, ← text]
  exact stop_agrees inside here seen stops

theorem escape_agrees {quoting : Quoting} {out : String}
    (inside : Inside before start quoting) (here : l.cursor.At before behind) :
    (l.escape start quoting out).Agrees l before behind
      (quoting.mode start out.toList true) := by
  unfold escape
  rw [here.currentChar]
  cases behind with
  | nil =>
    refine agrees_still _ here rfl ⟨inside, rfl⟩ ?_
    cases quoting <;> rfl
  | cons c rest =>
    refine agrees_read _ here here.advanceChar ⟨inside.more inside.opened _, rfl⟩ ?_
    rw [String.toList_push]
    cases quoting <;> rw [Quoting.mode, Quoting.mode, List.reverse_concat] <;> rfl

theorem step_agrees (follows : l.Follows before behind mode) :
    l.step.Agrees l before behind mode := by
  have here := follows.cursor
  have said := follows.task
  unfold step
  cases task : l.task with rw [task] at said
  | datum =>
    obtain rfl : mode = .between := said
    exact datum_agrees task here
  | run start => exact run_agrees task follows
  | string start quoting out =>
    obtain ⟨inside, rfl⟩ := said
    exact skip_agrees inside here
  | piece start runStart quoting out found => exact piece_agrees task follows
  | escape start quoting out =>
    obtain ⟨inside, rfl⟩ := said
    exact escape_agrees inside here

end Steps

/-! ## The whole source -/

theorem result_eq {l : Loader} (fits : l.Fits) {before behind : List Char} {mode : Reader.Mode}
    (follows : l.Follows before behind mode) :
    l.result fits = (l.reader mode).outcome behind := by
  fun_induction result l fits generalizing before behind mode with
  | case1 l fits next stepped ih =>
    have agrees := step_agrees follows
    rw [stepped] at agrees
    obtain ⟨taken, rest, mode', -, follows', same⟩ := agrees
    rw [same]
    exact ih follows'
  | case2 l fits result stepped =>
    have agrees := step_agrees follows
    rw [stepped] at agrees
    exact agrees.symm

theorem initial_follows (source : String) :
    (initial source).Follows [] source.toList .between where
  cursor := ⟨rfl, rfl⟩
  task := rfl

/-- The loader reads what a fold over the characters reads. -/
theorem load_eq_read (source : String) : load source = Datum.read source :=
  result_eq (initial_fits source) (initial_follows source)

def Leads : Loader → Loader → Prop := Relation.ReflTransGen fun l next => l.step = .goesOn next

section Leads

variable {l next : Loader} {before behind : List Char} {mode : Reader.Mode} {source : String}

theorem Leads.follows (leads : Leads l next) (follows : l.Follows before behind mode) :
    ∃ taken rest mode', behind = taken ++ rest ∧ next.Follows (before ++ taken) rest mode' := by
  induction leads with
  | refl => exact ⟨[], behind, mode, rfl, by rwa [List.append_nil]⟩
  | tail _ stepped ih =>
    obtain ⟨taken, rest, mode', rfl, follows'⟩ := ih
    have agrees := step_agrees follows'
    rw [stepped] at agrees
    obtain ⟨more, rest', mode'', rfl, follows'', -⟩ := agrees
    rw [List.append_assoc] at follows''
    exact ⟨taken ++ more, rest', mode'', (List.append_assoc _ _ _).symm, follows''⟩

theorem Leads.source_eq (leads : Leads l next) (follows : l.Follows before behind mode) :
    next.cursor.source = l.cursor.source := by
  obtain ⟨taken, rest, mode', rfl, follows'⟩ := leads.follows follows
  refine String.toList_inj.mp ?_
  rw [← follows'.cursor.whole, ← follows.cursor.whole, List.append_assoc]

theorem Leads.pos_le (leads : Leads l next) (follows : l.Follows before behind mode) :
    l.cursor.pos ≤ next.cursor.pos := by
  obtain ⟨taken, rest, mode', -, follows'⟩ := leads.follows follows
  rw [follows.cursor.pos, follows'.cursor.pos, String.utf8Len_append]
  exact Nat.le_add_right _ _

/-- The loader comes to an end, which is its result. -/
theorem exists_end (fits : l.Fits) :
    ∃ last, Leads l last ∧ last.step = .ends (l.result fits) := by
  fun_induction result l fits with
  | case1 l fits next stepped ih =>
    obtain ⟨last, leads, ended⟩ := ih
    exact ⟨last, .head stepped leads, ended⟩
  | case2 l fits result stepped => exact ⟨l, .refl, stepped⟩

/-- The next step cuts out the text from that byte to the cursor, if not at once. -/
def Task.CutsFrom (start : Nat) : Task → Prop
  | run runStart => start = runStart
  | piece _ runStart _ _ _ => start = runStart
  | _ => False

theorem Follows.exists_piece (follows : l.Follows before behind mode) {start : Nat}
    (cuts : l.task.CutsFrom start) :
    ∃ ahead chars, before = ahead ++ chars ∧ start = utf8Len ahead := by
  have said := follows.task
  cases task : l.task with rw [task] at said cuts
  | run runStart =>
    obtain ⟨ahead, chars, text, begun, -⟩ := said
    exact ⟨ahead, chars, text, cuts.trans begun⟩
  | piece _ runStart _ _ _ =>
    obtain ⟨-, -, -, ahead, chars, text, begun, -⟩ := said
    exact ⟨ahead, chars, text, cuts.trans begun⟩
  | datum => cases cuts
  | string => cases cuts
  | escape => cases cuts

/-- Where the cursor is while a source is loaded, what is cut out there, and what errors point
at. -/
structure KeepsPlace (source : String) : Prop where
  terminates : ∃ last, Leads (initial source) last ∧ last.step = .ends (load source)
  forward (l next : Loader) : Leads (initial source) l → Leads l next →
    l.cursor.pos ≤ next.cursor.pos
  boundary (l : Loader) : Leads (initial source) l →
    l.cursor.source = source ∧ String.Pos.Raw.IsValid source ⟨l.cursor.pos⟩
  char (l : Loader) : Leads (initial source) l →
    l.cursor.currentChar = String.Pos.Raw.get? source ⟨l.cursor.pos⟩ ∧
      (l.cursor.currentChar = none → l.cursor.pos = source.utf8ByteSize)
  cut (l : Loader) (start : Nat) : Leads (initial source) l → l.task.CutsFrom start →
    ∃ p : Piece source.toList, p.span = ⟨start, l.cursor.pos⟩ ∧
      l.cursor.cut? start l.cursor.pos = some (String.ofList p.chars)
  error (e : ReadError) : load source = .error e → e.PointsInto source

theorem load_keepsPlace (source : String) (short : source.utf8ByteSize < 4 * 1024 ^ 3) :
    KeepsPlace source where
  terminates := exists_end (initial_fits source)
  forward l next reached leads := by
    obtain ⟨taken, rest, mode, -, follows⟩ := reached.follows (initial_follows source)
    exact leads.pos_le follows
  boundary l reached := by
    obtain ⟨taken, rest, mode, -, follows⟩ := reached.follows (initial_follows source)
    have same : l.cursor.source = source := reached.source_eq (initial_follows source)
    exact ⟨same, same ▸ follows.cursor.isValid⟩
  char l reached := by
    obtain ⟨taken, rest, mode, text, follows⟩ := reached.follows (initial_follows source)
    have same : l.cursor.source = source := reached.source_eq (initial_follows source)
    have seen := String.get?_of_valid taken rest
    rw [← text, String.ofList_toList] at seen
    rw [follows.cursor.currentChar, follows.cursor.pos]
    refine ⟨seen.symm, fun none => ?_⟩
    rw [List.head?_eq_none_iff.mp none, List.append_nil] at text
    rw [← String.utf8Len_toList, text]
    rfl
  cut l start reached cuts := by
    obtain ⟨taken, rest, mode, text, follows⟩ := reached.follows (initial_follows source)
    have same : l.cursor.source = source := reached.source_eq (initial_follows source)
    obtain ⟨ahead, chars, split, begun⟩ := follows.exists_piece cuts
    have whole : ahead ++ chars ++ rest = source.toList := by rw [← split, text]; rfl
    have pos : l.cursor.pos = utf8Len ahead + utf8Len chars := by
      rw [follows.cursor.pos, split, String.utf8Len_append]
    refine ⟨⟨ahead, chars, rest, whole⟩, ?_, ?_⟩
    · rw [Piece.span, begun, pos]
    · rw [begun, pos]
      exact Cursor.cut?_eq (whole.trans (congrArg String.toList same.symm))
  error e failed := Datum.pointsInto_of_read short (load_eq_read source ▸ failed)

/-- A word with a mark inside, behind characters of two bytes and an escaped caret. -/
theorem load_keepsPlace_mark :
    "\"é^^\" [λ: b'c]".utf8ByteSize < 4 * 1024 ^ 3 ∧ KeepsPlace "\"é^^\" [λ: b'c]" ∧
      load "\"é^^\" [λ: b'c]" = .error ⟨.invalidWord "b'c", ⟨12, 15⟩⟩ := by
  have short : "\"é^^\" [λ: b'c]".utf8ByteSize < 4 * 1024 ^ 3 := by decide
  refine ⟨short, load_keepsPlace _ short, ?_⟩
  rw [load_eq_read]
  with_unfolding_all rfl

end Leads

end Loader

end BlockScript
