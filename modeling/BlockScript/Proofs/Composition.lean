import BlockScript.Proofs.Blame
import BlockScript.Proofs.RoundTrip

/-!
# Texts one after another

A reader that is between two data reads what follows as it would read it alone. Only the place
differs: everything is as many bytes further on, the outermost data come after those that were read
before, and an outermost closer closes what was open before. A text that was read leaves the reader
between two data once a line end follows it, however the text ends.
-/

namespace BlockScript

def Span.shift (s : Span) (n : Nat) : Span := ⟨s.start + n, s.stop + n⟩

def ReadError.shift (e : ReadError) (n : Nat) : ReadError := { e with span := e.span.shift n }

namespace Reader

variable {α β : Type} {base r r' : Reader} {c : Char}

/-! ## The same text further on -/

def Mode.shift (n : Nat) : Mode → Mode
  | between => .between
  | comment => .comment
  | run start chars => .run (start + n) chars
  | quoted start chars escaped => .quoted (start + n) chars escaped
  | braced start depth chars escaped => .braced (start + n) depth chars escaped

def itemsAfter (base : Reader) (items : List Datum) : List Opened → List Datum
  | [] => items ++ base.items
  | _ :: _ => items

def enclosingAfter (base : Reader) : List Opened → List Opened
  | [] => base.enclosing
  | opened :: outer =>
    ⟨opened.delimiter, opened.start + base.pos, base.itemsAfter opened.before outer⟩ ::
      base.enclosingAfter outer

/-- A reader of a text, as it is when `base` goes on with that text. -/
def after (r base : Reader) : Reader where
  pos := r.pos + base.pos
  mode := r.mode.shift base.pos
  items := base.itemsAfter r.items r.enclosing
  enclosing := base.enclosingAfter r.enclosing

theorem initial_after (pos : Nat) (items : List Datum) (enclosing : List Opened) :
    after {} ⟨pos, .between, items, enclosing⟩ = ⟨pos, .between, items, enclosing⟩ := by
  simp [after, Mode.shift, itemsAfter, enclosingAfter]

/-- What became of a text alone, and of the same text after `base`. A closer too many is an error
only where nothing is open, so errors are compared if nothing was. -/
inductive Later (base : Reader) (place : α → α) :
    Except ReadError α → Except ReadError α → Prop where
  | ok (a : α) : Later base place (.ok a) (.ok (place a))
  | error {cause : ReadError.Cause} {start stop : Nat} {outcome : Except ReadError α}
      (same : base.enclosing = [] → outcome = fail cause (start + base.pos) (stop + base.pos)) :
      Later base place (.error ⟨cause, .ofOffsets start stop⟩) outcome

theorem Later.bind {place : α → α} {place' : β → β} {x y : Except ReadError α}
    {f g : α → Except ReadError β} (h : Later base place x y)
    (next : ∀ a, Later base place' (f a) (g (place a))) :
    Later base place' (x.bind f) (y.bind g) := by
  cases h with
  | ok a => exact next a
  | error same => exact .error fun outermost => by rw [same outermost]; rfl

theorem add_after (r base : Reader) (item : Datum) :
    (r.add item).after base = (r.after base).add item := by
  obtain ⟨pos, mode, items, enclosing⟩ := r
  cases enclosing <;> rfl

theorem Later.reader (r base : Reader) :
    Later base (after · base) (.ok r) (.ok (r.after base)) := .ok r

theorem Later.add (r base : Reader) (item : Datum) :
    Later base (after · base) (.ok (r.add item)) (.ok ((r.after base).add item)) :=
  add_after r base item ▸ .reader (r.add item) base

theorem Later.unexpected (r base : Reader) (found : Char) {outcome : Except ReadError Reader}
    (same : base.enclosing = [] →
      outcome = fail (.unexpectedDelimiter found) (r.after base).pos ((r.after base).pos + 1)) :
    Later base (after · base) (fail (.unexpectedDelimiter found) r.pos (r.pos + 1)) outcome :=
  .error fun outermost => by rw [same outermost, Nat.add_right_comm]; rfl

theorem addRun_after (r base : Reader) (start : Nat) (chars : List Char) :
    Later base (after · base) (r.addRun start chars)
      ((r.after base).addRun (start + base.pos) chars) := by
  unfold addRun
  cases Datum.ofRun chars.reverse with
  | ok item => exact .add r base item
  | error cause => exact .error fun _ => rfl

theorem closeContainer_after (r base : Reader) (delimiter : Delimiter) :
    Later base (after · base) (r.closeContainer delimiter)
      ((r.after base).closeContainer delimiter) := by
  obtain ⟨pos, mode, items, enclosing⟩ := r
  cases enclosing with
  | nil =>
    refine .unexpected ⟨pos, mode, items, []⟩ base delimiter.closer fun outermost => ?_
    simp only [closeContainer, after, enclosingAfter, outermost]
  | cons opened outer =>
    unfold closeContainer
    dsimp only [after, enclosingAfter]
    split
    · -- Where the closed container was an outermost one, it comes after the data read before.
      cases outer <;> exact .reader _ base
    · exact .unexpected ⟨pos, mode, items, opened :: outer⟩ base delimiter.closer fun _ => rfl

theorem start_after (r base : Reader) (c : Char) :
    Later base (after · base) (r.start c) ((r.after base).start c) := by
  by_cases delimiter : isDelimiter c = true
  · simp only [isDelimiter, decide_eq_true_eq, List.mem_cons, List.not_mem_nil, or_false]
      at delimiter
    rcases delimiter with rfl | rfl | rfl | rfl | rfl | rfl | rfl | rfl | rfl | rfl | rfl | rfl
    · exact .reader _ base
    · exact .reader _ base
    · exact .reader _ base
    · exact .reader _ base
    · exact .reader (r.openContainer .square) base
    · exact closeContainer_after r base .square
    · exact .reader (r.openContainer .round) base
    · exact closeContainer_after r base .round
    · exact .reader _ base
    · exact .reader _ base
    · exact .unexpected r base '\x7d' fun _ => rfl
    · exact .reader _ base
  · have continues : isDelimiter c = false := by simpa using delimiter
    rw [start_of_continues continues, start_of_continues continues]
    exact .reader _ base

theorem read_after (r base : Reader) (c : Char) :
    Later base (after · base) (r.read c) ((r.after base).read c) := by
  unfold read
  rw [show (r.after base).mode = r.mode.shift base.pos from rfl]
  cases mode : r.mode with
  | between => exact start_after r base c
  | comment =>
    dsimp only [Mode.shift]
    split
    · exact .reader _ base
    · exact .reader r base
  | run start chars =>
    dsimp only [Mode.shift]
    split
    · exact (addRun_after r base start chars).bind fun added => start_after added base c
    · exact .reader _ base
  | quoted start chars escaped =>
    cases escaped with
    | true => exact .reader _ base
    | false =>
      dsimp only [Mode.shift]
      split
      · exact .add r base _
      · exact .reader _ base
      · exact .error fun _ => rfl
      · exact .reader _ base
  | braced start depth chars escaped =>
    cases escaped with
    | true => exact .reader _ base
    | false =>
      dsimp only [Mode.shift]
      split
      · exact .reader _ base
      · split
        · exact .add r base _
        · exact .reader _ base
      · exact .reader _ base
      · exact .reader _ base

theorem step_after (r base : Reader) (c : Char) :
    Later base (after · base) (r.step c) ((r.after base).step c) := by
  have read := read_after r base c
  unfold step
  generalize r.read c = x at read ⊢
  generalize (r.after base).read c = y at read ⊢
  cases read with
  | ok next =>
    have moved : (r.after base).pos + c.utf8Size = r.pos + c.utf8Size + base.pos :=
      Nat.add_right_comm ..
    dsimp only [Except.map]
    rw [moved]
    exact .reader { next with pos := r.pos + c.utf8Size } base
  | error same => exact .error fun outermost => by rw [same outermost]; rfl

theorem foldlM_after (cs : List Char) (r base : Reader) :
    Later base (after · base) (cs.foldlM step r) (cs.foldlM step (r.after base)) := by
  induction cs generalizing r with
  | nil => exact .reader r base
  | cons c cs ih =>
    rw [List.foldlM_cons, List.foldlM_cons]
    exact (step_after r base c).bind ih

theorem endMode_after (r base : Reader) :
    Later base (after · base) r.endMode (r.after base).endMode := by
  unfold endMode
  rw [show (r.after base).mode = r.mode.shift base.pos from rfl]
  cases mode : r.mode with
  | between => exact .reader r base
  | comment => exact .reader r base
  | run start chars => exact addRun_after r base start chars
  | quoted start chars escaped => exact .error fun _ => rfl
  | braced start depth chars escaped => exact .error fun _ => rfl

/-- Where nothing was open, a text that ends well gives its data after those read before. -/
theorem finish_after (r : Reader) {base : Reader} (outermost : base.enclosing = []) :
    Later base (base.items.reverse ++ ·) r.finish (r.after base).finish := by
  refine (endMode_after r base).bind fun ended => ?_
  obtain ⟨pos, mode, items, enclosing⟩ := ended
  cases enclosing with
  | nil =>
    simp only [after, enclosingAfter, outermost, itemsAfter, List.reverse_append]
    exact .ok items.reverse
  | cons opened outer =>
    exact .error fun _ => by simp only [after, enclosingAfter, Nat.add_right_comm]

/-! ## The end of a text -/

/-- What ends with a text ends with a line as well. -/
theorem step_lineEnd {last : Reader} (ended : r.endMode = .ok last) :
    r.step '\n' = .ok { last with pos := r.pos + 1, mode := .between } := by
  have read : r.read '\n' = .ok { last with mode := .between } := by
    unfold endMode at ended
    unfold Reader.read
    cases mode : r.mode with rw [mode] at ended
    | between =>
      cases ended
      rfl
    | comment =>
      cases ended
      rfl
    | run start chars =>
      have delimiter : isDelimiter '\n' = true := by decide
      simp only [delimiter, if_true]
      rw [show r.addRun start chars = .ok last from ended]
      rfl
    | quoted start chars escaped => cases ended
    | braced start depth chars escaped => cases ended
  exact step_eq r '\n' read

end Reader

variable {source text : String} {items items' : List Datum}

theorem Datum.span_of_read_error {e : ReadError} (failed : Datum.read text = .error e) :
    e.span.start ≤ text.utf8ByteSize ∧ e.span.stop ≤ text.utf8ByteSize := by
  have blamed := Datum.blamed_read text
  rw [failed] at blamed
  cases blamed with
  | error p outside blames =>
    have stops := p.stop_le
    have begins := Piece.start_lt_stop blames.nonempty
    rw [String.utf8Len_toList] at stops
    exact ⟨(Nat.min_le_left _ _).trans (begins.le.trans stops), (Nat.min_le_left _ _).trans stops⟩

/-- A text that was read, and a line end, leave the reader between two data with nothing open. -/
theorem Datum.foldlM_of_read (read : Datum.read source = .ok items) :
    (source.toList ++ ['\n']).foldlM Reader.step {} =
      .ok ⟨source.utf8ByteSize + 1, .between, items.reverse, []⟩ := by
  obtain ⟨r, run, finished⟩ := exists_of_bind_eq_ok read
  obtain ⟨last, ended, finished⟩ := exists_of_bind_eq_ok finished
  have pos : r.pos = source.utf8ByteSize := by
    rw [(Reader.hasRead_of_foldlM run).pos, String.utf8Len_toList]
  rw [Reader.foldlM_append_ok run, Reader.foldlM_cons_ok (Reader.step_lineEnd ended), pos]
  split at finished
  · next outermost =>
    cases finished
    rw [outermost, List.reverse_reverse]
    rfl
  · cases finished

theorem Datum.read_after_line (read : Datum.read source = .ok items) (text : String) :
    Reader.Later ⟨source.utf8ByteSize + 1, .between, items.reverse, []⟩ (items ++ ·)
      (Datum.read text) (Datum.read (source ++ "\n" ++ text)) := by
  let base : Reader := ⟨source.utf8ByteSize + 1, .between, items.reverse, []⟩
  have chars : (source ++ "\n" ++ text).toList = (source.toList ++ ['\n']) ++ text.toList := by
    simp
  have later := (Reader.foldlM_after text.toList {} base).bind fun last =>
    Reader.finish_after last (rfl : base.enclosing = [])
  rw [Reader.initial_after, List.reverse_reverse] at later
  unfold Datum.read
  rw [chars, Reader.foldlM_append_ok (Datum.foldlM_of_read read)]
  exact later

theorem Datum.read_enclosed (read : Datum.read source = .ok items) (delimiter : Delimiter)
    {enclosed : String} (chars : enclosed.toList =
      delimiter.opener :: ((source.toList ++ ['\n']) ++ [delimiter.closer])) :
    Datum.read enclosed = .ok [delimiter.datum items] := by
  let base : Reader := ⟨delimiter.opener.utf8Size, .between, [], [⟨delimiter, 0, []⟩]⟩
  have opened : Reader.step {} delimiter.opener = .ok base := by cases delimiter <;> rfl
  obtain ⟨last, inside, between, items', enclosing⟩ : ∃ last : Reader,
      (source.toList ++ ['\n']).foldlM Reader.step base = .ok last ∧ last.mode = .between ∧
        last.items = items.reverse ∧ last.enclosing = base.enclosing := by
    have inside := Reader.foldlM_after (source.toList ++ ['\n']) {} base
    rw [Reader.initial_after, Datum.foldlM_of_read read] at inside
    generalize (source.toList ++ ['\n']).foldlM Reader.step base = x at inside ⊢
    cases inside with
    | ok last => exact ⟨_, rfl, rfl, List.append_nil _, rfl⟩
  obtain ⟨pos, mode, data, outer⟩ := last
  subst between items' enclosing
  have closes : Reader.read ⟨pos, .between, items.reverse, base.enclosing⟩ delimiter.closer =
      .ok ⟨pos, .between, [delimiter.datum items], []⟩ := by
    cases delimiter <;>
      simp [base, Reader.read, Reader.start, Reader.closeContainer, Delimiter.closer]
  rw [Datum.read, chars, Reader.foldlM_cons_ok opened, Reader.foldlM_append_ok inside,
    Reader.foldlM_cons_ok (Reader.step_eq _ _ closes)]
  rfl

/-! ## Names keep their numbers -/

namespace SymbolTable

variable {t : SymbolTable} {name : String} {number : Nat}

theorem find?_intern (known : t.find? name = some number) (text : String) :
    (t.intern text).2.find? name = some number := by
  unfold intern
  split
  · exact known
  · obtain ⟨⟨texts⟩⟩ := t
    rw [find?, List.idxOf?_toArray] at known
    rw [find?, List.push_toArray, List.idxOf?_toArray, List.idxOf?, List.findIdx?_append,
      ← List.idxOf?, known]
    rfl

theorem find?_internAll (known : t.find? name = some number) (texts : List String) :
    (t.internAll texts).find? name = some number := by
  induction texts generalizing t with
  | nil => exact known
  | cons text texts ih => exact ih (find?_intern known text)

theorem internAll_append (t : SymbolTable) (texts texts' : List String) :
    t.internAll (texts ++ texts') = (t.internAll texts).internAll texts' :=
  List.foldl_append

end SymbolTable

theorem Datum.symbolsOf_append (items items' : List Datum) :
    symbolsOf (items ++ items') = symbolsOf items ++ symbolsOf items' := by
  induction items with
  | nil => rfl
  | cons item items ih => rw [List.cons_append, symbolsOf, symbolsOf, ih, List.append_assoc]

/-- Loading both lists of data at once numbers their names as loading one after the other does. -/
structure SymbolTable.NumbersInTurn (t : SymbolTable) (items items' : List Datum) : Prop where
  table : t.internAll (Datum.symbolsOf (items ++ items')) =
    (t.internAll (Datum.symbolsOf items)).internAll (Datum.symbolsOf items')
  kept : ∀ name ∈ Datum.symbolsOf items, ∃ number,
    (t.internAll (Datum.symbolsOf items)).find? name = some number ∧
      (t.internAll (Datum.symbolsOf (items ++ items'))).find? name = some number

theorem SymbolTable.numbersInTurn (t : SymbolTable) (items items' : List Datum) :
    t.NumbersInTurn items items' where
  table := by rw [Datum.symbolsOf_append, internAll_append]
  kept name member := by
    have known := mem_internAll member t
    obtain ⟨number, found⟩ := Option.isSome_iff_exists.mp (Array.isSome_idxOf?.mpr known)
    refine ⟨number, found, ?_⟩
    rw [Datum.symbolsOf_append, internAll_append]
    exact find?_internAll found _

/-! ## Composition -/

/-- What a source that holds these data contributes to a larger one: its data come first, what
follows a line end is read as if it stood alone, and brackets around it make one container of it. -/
structure Composes (source : String) (items : List Datum) : Prop where
  followed : ∀ text items', Datum.read text = .ok items' →
    Datum.read (source ++ "\n" ++ text) = .ok (items ++ items') ∧
      ∀ t : SymbolTable, t.NumbersInTurn items items'
  failing : ∀ text e, Datum.read text = .error e →
    (source ++ "\n" ++ text).utf8ByteSize ≤ Span.maxOffset →
      Datum.read (source ++ "\n" ++ text) = .error (e.shift (source.utf8ByteSize + 1))
  block : Datum.read ("[" ++ source ++ "\n]") = .ok [.block items]
  paren : Datum.read ("(" ++ source ++ "\n)") = .ok [.paren items]

theorem read_composes (read : Datum.read source = .ok items) : Composes source items where
  followed text items' followed := by
    have later := Datum.read_after_line read text
    rw [followed] at later
    generalize Datum.read (source ++ "\n" ++ text) = x at later ⊢
    cases later with
    | ok => exact ⟨rfl, fun t => t.numbersInTurn items items'⟩
  failing text e failed fits := by
    obtain ⟨startsInside, stopsInside⟩ := Datum.span_of_read_error failed
    have later := Datum.read_after_line read text
    have size : (source ++ "\n" ++ text).utf8ByteSize =
        source.utf8ByteSize + 1 + text.utf8ByteSize := by
      rw [String.utf8ByteSize_append, String.utf8ByteSize_append]
      rfl
    rw [failed] at later
    rw [size] at fits
    cases later with
    | @error cause first last _ same =>
      -- An offset inside of the text is not cut off, as the longer source has no cut off offset.
      have kept : ∀ offset, min offset Span.maxOffset ≤ text.utf8ByteSize →
          min (offset + (source.utf8ByteSize + 1)) Span.maxOffset =
            min offset Span.maxOffset + (source.utf8ByteSize + 1) := by
        intro offset inside
        omega
      rw [same rfl, Reader.fail, Span.ofOffsets, kept first startsInside, kept last stopsInside]
      rfl
  block := Datum.read_enclosed read .square (by simp [Delimiter.opener, Delimiter.closer])
  paren := Datum.read_enclosed read .round (by simp [Delimiter.opener, Delimiter.closer])

/-- A source of several bytes a character that ends inside of a comment. -/
theorem read_composes_comment :
    ∃ items, Datum.read "é: \x7b^\x7dλ\x7d :b/2 ; [\"" = .ok items ∧
      Composes "é: \x7b^\x7dλ\x7d :b/2 ; [\"" items := by
  have read : Datum.read "é: \x7b^\x7dλ\x7d :b/2 ; [\"" =
      .ok [.word .setWord "é", .text "\x7dλ", .path .getPath [.name "b", .index 2]] := by
    with_unfolding_all rfl
  exact ⟨_, read, read_composes read⟩

end BlockScript
