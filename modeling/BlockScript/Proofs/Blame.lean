import Mathlib.Data.String.Basic
import BlockScript.Proofs.Reading

/-!
# What read errors point at

The reader knows where everything that it is inside of began: a run, a string, each open container.
After each character these are boundaries of characters of the source, and what stands between them
and the reader is what the reader has taken in. So an error points at a piece of the source, and the
piece is what the error speaks of.
-/

namespace BlockScript

open String (utf8Len)

/-! ## Pieces of a source -/

structure Piece (source : List Char) where
  before : List Char
  chars : List Char
  behind : List Char
  whole : before ++ chars ++ behind = source

def Piece.span {source : List Char} (p : Piece source) : Span :=
  ⟨utf8Len p.before, utf8Len p.before + utf8Len p.chars⟩

def EndsRun (text : List Char) : Prop := ∀ c, text.getLast? = some c → Reader.isDelimiter c = true

structure Piece.IsToken {source : List Char} (p : Piece source) : Prop where
  nonempty : p.chars ≠ []
  inside : ∀ c ∈ p.chars, Reader.isDelimiter c = false
  before : EndsRun p.before
  behind : ∀ c, p.behind.head? = some c → Reader.isDelimiter c = true

/-- What the marks of a token leave, or the slash of a refinement. -/
def Datum.strip (token : List Char) : List Char :=
  match splitFlavour token with
  | (.plain, '/' :: body) => body
  | (_, body) => body

inductive Blames {source : List Char} : ReadError.Cause → Piece source → Prop where
  | invalidNumber {p : Piece source} (token : p.IsToken) :
      Blames (.invalidNumber (String.ofList p.chars)) p
  | malformedPath {p : Piece source} (token : p.IsToken) :
      Blames (.malformedPath (String.ofList p.chars)) p
  | invalidWord {p : Piece source} (token : p.IsToken) :
      Blames (.invalidWord (String.ofList (Datum.strip p.chars))) p
  | unexpectedDelimiter {p : Piece source} {found : Char} (closer : found ∈ [']', ')', '\x7d'])
      (chars : p.chars = [found]) : Blames (.unexpectedDelimiter found) p
  | unclosedDelimiter {p : Piece source} (delimiter : Delimiter)
      (chars : p.chars = [delimiter.opener]) : Blames (.unclosedDelimiter delimiter.closer) p
  | unterminatedString {p : Piece source} {quote : Char} {inside : List Char}
      (opens : quote ∈ ['"', '\x7b']) (chars : p.chars = quote :: inside) :
      Blames .unterminatedString p

theorem readWord_error {kind : WordKind} {body : List Char} {cause : ReadError.Cause}
    (failed : Datum.readWord kind body = .error cause) :
    cause = .invalidWord (String.ofList body) := by
  unfold Datum.readWord at failed
  split at failed
  · cases failed
  · cases failed
    rfl

theorem Datum.strip_of_slash {token : List Char}
    (slash : (splitFlavour token).1 = .plain ∧ (splitFlavour token).2.head? = some '/') :
    strip token = (splitFlavour token).2.tail := by
  obtain ⟨body, slashed⟩ := List.head?_eq_some_iff.mp slash.2
  unfold strip
  split
  · next split => rw [split]; rfl
  · next plain split =>
    rw [split] at slash slashed
    exact absurd slashed (plain body slash.1)

theorem Datum.strip_of_not_slash {token : List Char}
    (other : ¬ ((splitFlavour token).1 = .plain ∧ (splitFlavour token).2.head? = some '/')) :
    strip token = (splitFlavour token).2 := by
  unfold strip
  split
  · next split => exact absurd (by rw [split]; exact ⟨rfl, rfl⟩) other
  · next split => rw [split]

/-- The error of a token speaks of that token. -/
theorem blames_of_ofRun {source : List Char} {p : Piece source} {cause : ReadError.Cause}
    (token : p.IsToken) (failed : Datum.ofRun p.chars = .error cause) : Blames cause p := by
  unfold Datum.ofRun at failed
  dsimp only at failed
  split at failed
  · split at failed
    · cases failed
    · cases failed
      exact .invalidNumber token
  · split at failed
    · next slash =>
      split at failed
      · cases failed
      · rw [readWord_error failed, ← Datum.strip_of_slash slash]
        exact .invalidWord token
    · next other =>
      split at failed
      · split at failed
        · cases failed
        · cases failed
          exact .malformedPath token
      · rw [readWord_error failed, ← Datum.strip_of_not_slash other]
        exact .invalidWord token

/-! ## What the reader is inside of -/

namespace Reader

def Outside (text : List Char) : Prop :=
  ∃ r, text.foldlM step {} = .ok r ∧ (r.mode = .between ∨ ∃ start chars, r.mode = .run start chars)

/-- What the inside of a string stands for so far, newest character first, and whether a caret at
its end waits for a character. -/
inductive Spelled : List Char → Bool → List Char → Prop where
  | nil : Spelled [] false []
  | plain {raw chars : List Char} {c : Char} (before : Spelled raw false chars) (plain : c ≠ '^') :
      Spelled (raw ++ [c]) false (c :: chars)
  | caret {raw chars : List Char} (before : Spelled raw false chars) :
      Spelled (raw ++ ['^']) true chars
  | escaped {raw chars : List Char} {c : Char} (before : Spelled raw true chars) :
      Spelled (raw ++ [c]) false (unescape c :: chars)

def InRun (text : List Char) (start : Nat) (chars : List Char) : Prop :=
  ∃ before, text = before ++ chars.reverse ∧ start = utf8Len before ∧ Outside before ∧
    EndsRun before ∧ chars ≠ [] ∧ ∀ c ∈ chars, isDelimiter c = false

def InString (quote : Char) (text : List Char) (start : Nat) (escaped : Bool) (chars : List Char) :
    Prop :=
  ∃ before raw, text = before ++ quote :: raw ∧ start = utf8Len before ∧ Outside before ∧
    Spelled raw escaped chars

def Mode.Tracks (text : List Char) : Mode → Prop
  | between => EndsRun text
  | comment => True
  | run start chars => InRun text start chars
  | quoted start chars escaped => InString '"' text start escaped chars
  | braced start _ chars escaped => InString '\x7b' text start escaped chars

def OpenedIn (text : List Char) (opened : Opened) : Prop :=
  ∃ before behind, text = before ++ opened.delimiter.opener :: behind ∧
    opened.start = utf8Len before ∧ Outside before

structure Tracks (text : List Char) (r : Reader) : Prop where
  mode : r.mode.Tracks text
  enclosing : ∀ opened ∈ r.enclosing, OpenedIn text opened

/-- What became of reading a source; an error blames a piece that begins outside of strings. -/
inductive Blamed {α : Type} (source : List Char) (holds : α → Prop) :
    Except ReadError α → Prop where
  | ok {a : α} (h : holds a) : Blamed source holds (.ok a)
  | error {cause : ReadError.Cause} (p : Piece source) (outside : Outside p.before)
      (blames : Blames cause p) : Blamed source holds (fail cause p.span.start p.span.stop)

section Blamed

variable {α β : Type} {source text rest : List Char} {holds : α → Prop} {holds' : β → Prop}
  {r : Reader} {c : Char}

theorem Blamed.fail {cause : ReadError.Cause} {start stop : Nat} (p : Piece source)
    (outside : Outside p.before) (blames : Blames cause p) (begins : start = utf8Len p.before)
    (ends : stop = utf8Len p.before + utf8Len p.chars) :
    Blamed source holds (Reader.fail cause start stop) := by
  subst begins ends
  exact .error p outside blames

theorem Blamed.bind {x : Except ReadError α} {f : α → Except ReadError β}
    (first : Blamed source holds x) (next : ∀ a, holds a → Blamed source holds' (f a)) :
    Blamed source holds' (x.bind f) := by
  cases first with
  | ok h => exact next _ h
  | error p outside blames => exact .error p outside blames

theorem Blamed.imp {holds' : α → Prop} {x : Except ReadError α} (first : Blamed source holds x)
    (weaker : ∀ a, holds a → holds' a) : Blamed source holds' x := by
  cases first with
  | ok h => exact .ok (weaker _ h)
  | error p outside blames => exact .error p outside blames

theorem endsRun_concat (delimiter : isDelimiter c = true) : EndsRun (text ++ [c]) := by
  intro c' last
  rw [List.getLast?_concat] at last
  cases last
  exact delimiter

theorem OpenedIn.append {opened : Opened} (inside : OpenedIn text opened) (more : List Char) :
    OpenedIn (text ++ more) opened := by
  obtain ⟨before, behind, rfl, start, outside⟩ := inside
  exact ⟨before, behind ++ more, by simp, start, outside⟩

/-! ### One character -/

theorem InString.next {quote : Char} {start : Nat} {chars chars' : List Char}
    {escaped escaped' : Bool} (inside : InString quote text start escaped chars)
    (spelled : ∀ raw, Spelled raw escaped chars → Spelled (raw ++ [c]) escaped' chars') :
    InString quote (text ++ [c]) start escaped' chars' := by
  obtain ⟨before, raw, rfl, begins, outside, spelled'⟩ := inside
  exact ⟨before, raw ++ [c], by simp, begins, outside, spelled raw spelled'⟩

/-- A string that ends where the reader is, without its closing quote, is to blame. -/
theorem InString.blamed {quote : Char} {start : Nat} {chars : List Char} {escaped : Bool}
    (inside : InString quote text start escaped chars) (opens : quote ∈ ['"', '\x7b'])
    (pos : r.pos = utf8Len text) (whole : text ++ rest = source) :
    Blamed source holds (Reader.fail .unterminatedString start r.pos) := by
  obtain ⟨before, raw, rfl, begins, outside, -⟩ := inside
  exact .fail ⟨before, quote :: raw, rest, whole⟩ outside (.unterminatedString opens rfl) begins
    (pos.trans (String.utf8Len_append _ _))

theorem InRun.next {start : Nat} {chars : List Char} (inside : InRun text start chars)
    (continues : isDelimiter c = false) : InRun (text ++ [c]) start (c :: chars) := by
  obtain ⟨before, rfl, begins, outside, ends, -, plain⟩ := inside
  exact ⟨before, by simp, begins, outside, ends, List.cons_ne_nil _ _,
    List.forall_mem_cons.mpr ⟨continues, plain⟩⟩

/-- A token that ends where the reader is becomes a datum, or is to blame. -/
theorem InRun.blamed {start : Nat} {chars : List Char} (inside : InRun text start chars)
    (pos : r.pos = utf8Len text) (whole : text ++ rest = source)
    (ends : ∀ c, rest.head? = some c → isDelimiter c = true) :
    Blamed source (fun next => ∃ item, next = r.add item) (r.addRun start chars) := by
  obtain ⟨before, rfl, begins, outside, fresh, nonempty, plain⟩ := inside
  let p : Piece source := ⟨before, chars.reverse, rest, whole⟩
  have token : p.IsToken :=
    ⟨by simpa [p] using nonempty, fun c member => plain c (List.mem_reverse.mp member), fresh, ends⟩
  unfold addRun
  cases read : Datum.ofRun chars.reverse with
  | ok item => exact .ok ⟨item, rfl⟩
  | error cause =>
    exact .fail p outside (blames_of_ofRun token read) begins
      (pos.trans (String.utf8Len_append _ _))

/-- The reader goes on inside of something, or between two data. -/
theorem Blamed.enter (mode : Mode) (tracks : mode.Tracks (text ++ [c]))
    (enclosing : ∀ opened ∈ r.enclosing, OpenedIn text opened) :
    Blamed source (Tracks (text ++ [c])) (.ok { r with mode }) :=
  .ok ⟨tracks, fun opened member => (enclosing opened member).append [c]⟩

theorem Blamed.add (enclosing : ∀ opened ∈ r.enclosing, OpenedIn text opened)
    (delimiter : isDelimiter c = true) (item : Datum) :
    Blamed source (Tracks (text ++ [c])) (.ok (r.add item)) :=
  .ok ⟨endsRun_concat delimiter, fun opened member => (enclosing opened member).append [c]⟩

theorem unexpected_blamed (pos : r.pos = utf8Len text) (outside : Outside text)
    (whole : text ++ [c] ++ rest = source) (closer : c ∈ [']', ')', '\x7d']) :
    Blamed source holds (Reader.fail (.unexpectedDelimiter c) r.pos (r.pos + 1)) := by
  have size : utf8Len [c] = 1 := by
    simp only [List.mem_cons, List.not_mem_nil, or_false] at closer
    rcases closer with rfl | rfl | rfl <;> rfl
  exact .fail ⟨text, [c], rest, whole⟩ outside (.unexpectedDelimiter closer rfl) pos
    (by rw [pos, size])

theorem closeContainer_blamed (delimiter : Delimiter) (pos : r.pos = utf8Len text)
    (enclosing : ∀ opened ∈ r.enclosing, OpenedIn text opened) (outside : Outside text)
    (whole : text ++ [delimiter.closer] ++ rest = source) :
    Blamed source (Tracks (text ++ [delimiter.closer])) (r.closeContainer delimiter) := by
  have unexpected {holds : Reader → Prop} : Blamed source holds
      (Reader.fail (.unexpectedDelimiter delimiter.closer) r.pos (r.pos + 1)) :=
    unexpected_blamed pos outside whole (by cases delimiter <;> decide)
  unfold closeContainer
  split
  · next opened outer open_ =>
    split
    · rw [open_] at enclosing
      refine .ok ⟨endsRun_concat (by cases delimiter <;> decide), fun opened member => ?_⟩
      exact (enclosing opened (List.mem_cons_of_mem _ member)).append _
    · exact unexpected
  · exact unexpected

theorem openContainer_tracks (delimiter : Delimiter) (pos : r.pos = utf8Len text)
    (enclosing : ∀ opened ∈ r.enclosing, OpenedIn text opened) (outside : Outside text) :
    Tracks (text ++ [delimiter.opener]) (r.openContainer delimiter) where
  mode := endsRun_concat (by cases delimiter <;> decide)
  enclosing := List.forall_mem_cons.mpr
    ⟨⟨text, [], rfl, pos, outside⟩, fun opened member => (enclosing opened member).append _⟩

theorem start_blamed (pos : r.pos = utf8Len text)
    (enclosing : ∀ opened ∈ r.enclosing, OpenedIn text opened) (outside : Outside text)
    (fresh : isDelimiter c = false → EndsRun text) (whole : text ++ [c] ++ rest = source) :
    Blamed source (Tracks (text ++ [c])) (r.start c) := by
  unfold start
  split
  · exact .enter .between (endsRun_concat rfl) enclosing
  · exact .enter .between (endsRun_concat rfl) enclosing
  · exact .enter .between (endsRun_concat rfl) enclosing
  · exact .enter .between (endsRun_concat rfl) enclosing
  · exact .enter .comment trivial enclosing
  · exact .ok (openContainer_tracks .square pos enclosing outside)
  · exact .ok (openContainer_tracks .round pos enclosing outside)
  · exact closeContainer_blamed .square pos enclosing outside whole
  · exact closeContainer_blamed .round pos enclosing outside whole
  · exact unexpected_blamed pos outside whole (by decide)
  · exact .enter (.quoted r.pos [] false) ⟨text, [], rfl, pos, outside, .nil⟩ enclosing
  · exact .enter (.braced r.pos 1 [] false) ⟨text, [], rfl, pos, outside, .nil⟩ enclosing
  · have continues : isDelimiter c = false := by simp_all [isDelimiter]
    have run : InRun (text ++ [c]) r.pos [c] :=
      ⟨text, rfl, pos, outside, fresh continues, List.cons_ne_nil _ _, by simpa using continues⟩
    exact .enter (.run r.pos [c]) run enclosing

theorem read_blamed (tracks : r.Tracks text) (pos : r.pos = utf8Len text)
    (reached : text.foldlM step {} = .ok r) (whole : text ++ [c] ++ rest = source) :
    Blamed source (Tracks (text ++ [c])) (r.read c) := by
  have enclosing := tracks.enclosing
  have inside := tracks.mode
  have whole' : text ++ (c :: rest) = source := by simpa using whole
  unfold read
  cases mode : r.mode with rw [mode] at inside
  | between => exact start_blamed pos enclosing ⟨r, reached, .inl mode⟩ (fun _ => inside) whole
  | comment =>
    dsimp only
    split
    · next lineEnd =>
      subst lineEnd
      exact .enter .between (endsRun_concat rfl) enclosing
    · exact .ok ⟨mode ▸ trivial, fun opened member => (enclosing opened member).append [c]⟩
  | run start chars =>
    dsimp only
    split
    · next ends =>
      have added := InRun.blamed inside pos whole' fun c' first => by cases first; exact ends
      refine added.bind fun next item => ?_
      obtain ⟨item, rfl⟩ := item
      refine start_blamed pos enclosing ⟨r, reached, .inr ⟨start, chars, mode⟩⟩ ?_ whole
      intro continues
      rw [ends] at continues
      cases continues
    · next continues =>
      exact .enter (.run start (c :: chars)) (InRun.next inside (Bool.eq_false_iff.mpr continues))
        enclosing
  | quoted start chars escaped =>
    cases escaped with
    | true =>
      exact .enter (.quoted start _ false) (InString.next inside fun _ => .escaped) enclosing
    | false =>
      dsimp only
      split
      · exact .add enclosing rfl _
      · exact .enter (.quoted start _ true) (InString.next inside fun _ => .caret) enclosing
      · exact InString.blamed inside (by decide) pos whole'
      · next caret _ =>
        exact .enter (.quoted start _ false)
          (InString.next inside fun _ before => .plain before caret) enclosing
  | braced start depth chars escaped =>
    cases escaped with
    | true =>
      exact .enter (.braced start depth _ false) (InString.next inside fun _ => .escaped) enclosing
    | false =>
      dsimp only
      split
      · exact .enter (.braced start (depth + 1) _ false)
          (InString.next inside fun _ before => .plain before (by decide)) enclosing
      · split
        · exact .add enclosing rfl _
        · exact .enter (.braced start (depth - 1) _ false)
            (InString.next inside fun _ before => .plain before (by decide)) enclosing
      · exact .enter (.braced start depth _ true) (InString.next inside fun _ => .caret) enclosing
      · next caret =>
        exact .enter (.braced start depth _ false)
          (InString.next inside fun _ before => .plain before caret) enclosing

theorem step_blamed (tracks : r.Tracks text) (pos : r.pos = utf8Len text)
    (reached : text.foldlM step {} = .ok r) (whole : text ++ [c] ++ rest = source) :
    Blamed source (fun next => next.pos = r.pos + c.utf8Size ∧ next.Tracks (text ++ [c]))
      (r.step c) := by
  have read := read_blamed tracks pos reached whole
  unfold step
  generalize r.read c = x at read ⊢
  cases read with
  | ok tracks => exact .ok ⟨rfl, tracks.mode, tracks.enclosing⟩
  | error p outside blames => exact .error p outside blames

/-! ### The whole source -/

structure HasRead (text : List Char) (r : Reader) : Prop where
  reached : text.foldlM step {} = .ok r
  pos : r.pos = utf8Len text
  tracks : r.Tracks text

theorem hasRead_nil : HasRead [] {} where
  reached := rfl
  pos := rfl
  tracks := ⟨fun _ last => (by cases last), fun _ member => (by cases member)⟩

theorem HasRead.foldlM (read : r.HasRead text) (whole : text ++ rest = source) :
    Blamed source (HasRead source) (rest.foldlM step r) := by
  induction rest generalizing text r with
  | nil =>
    rw [List.append_nil] at whole
    exact .ok (whole ▸ read)
  | cons c rest ih =>
    have whole' : text ++ [c] ++ rest = source := by simpa using whole
    have stepped := step_blamed read.tracks read.pos read.reached whole'
    rw [List.foldlM_cons]
    cases found : r.step c with
    | ok next =>
      rw [found] at stepped
      cases stepped with
      | ok tracks =>
        refine ih ⟨?_, ?_, tracks.2⟩ whole'
        · rw [foldlM_append_ok read.reached, foldlM_cons_ok found]
          rfl
        · rw [tracks.1, read.pos, String.utf8Len_append, String.utf8Len_cons, String.utf8Len_nil,
            Nat.zero_add]
    | error e =>
      rw [found] at stepped
      cases stepped with
      | error p outside blames => exact .error p outside blames

theorem hasRead_of_foldlM (reached : text.foldlM step {} = .ok r) : r.HasRead text := by
  have read : Blamed text (HasRead text) (text.foldlM step {}) := hasRead_nil.foldlM rfl
  rw [reached] at read
  cases read with
  | ok read => exact read

theorem HasRead.endMode (read : r.HasRead source) :
    Blamed source (fun last => last.enclosing = r.enclosing) r.endMode := by
  have inside := read.tracks.mode
  have whole : source ++ [] = source := List.append_nil source
  unfold Reader.endMode
  cases mode : r.mode with rw [mode] at inside
  | between => exact .ok rfl
  | comment => exact .ok rfl
  | run start chars =>
    have added := InRun.blamed inside read.pos whole fun _ none => by cases none
    exact added.imp fun last ⟨item, same⟩ => same ▸ rfl
  | quoted start chars escaped => exact InString.blamed inside (by decide) read.pos whole
  | braced start depth chars escaped => exact InString.blamed inside (by decide) read.pos whole

theorem HasRead.finish (read : r.HasRead source) : Blamed source (fun _ => True) r.finish := by
  refine read.endMode.bind fun last same => ?_
  rw [same]
  split
  · exact .ok trivial
  · next opened outer enclosing =>
    obtain ⟨before, behind, whole, begins, outside⟩ :=
      read.tracks.enclosing opened (enclosing ▸ List.mem_cons_self)
    have size : utf8Len [opened.delimiter.opener] = 1 := by cases opened.delimiter <;> rfl
    exact .fail ⟨before, [opened.delimiter.opener], behind, by simpa using whole.symm⟩ outside
      (.unclosedDelimiter _ rfl) begins (by rw [begins, size])

end Blamed

end Reader

/-! ## Errors point into the source -/

theorem Blames.nonempty {source : List Char} {cause : ReadError.Cause} {p : Piece source}
    (blames : Blames cause p) : p.chars ≠ [] := by
  cases blames with
  | invalidNumber token => exact token.nonempty
  | malformedPath token => exact token.nonempty
  | invalidWord token => exact token.nonempty
  | unexpectedDelimiter _ chars => rw [chars]; exact List.cons_ne_nil _ _
  | unclosedDelimiter _ chars => rw [chars]; exact List.cons_ne_nil _ _
  | unterminatedString _ chars => rw [chars]; exact List.cons_ne_nil _ _

theorem Datum.blamed_read (source : String) :
    Reader.Blamed source.toList (fun _ => True) (Datum.read source) :=
  (Reader.hasRead_nil.foldlM (List.nil_append source.toList)).bind fun _ read => read.finish

/-- The span of an error is a piece of the source that is not empty, and the error speaks of it. -/
structure ReadError.PointsInto (source : String) (e : ReadError) : Prop where
  nonempty : e.span.start < e.span.stop
  inside : e.span.stop ≤ source.utf8ByteSize
  starts : String.Pos.Raw.IsValid source ⟨e.span.start⟩
  stops : String.Pos.Raw.IsValid source ⟨e.span.stop⟩
  blames : ∃ p : Piece source.toList, e.span = p.span ∧
    String.Pos.Raw.extract source ⟨e.span.start⟩ ⟨e.span.stop⟩ = String.ofList p.chars ∧
    Reader.Outside p.before ∧ Blames e.cause p

theorem isValid_of_append {source : String} {before behind : List Char}
    (whole : before ++ behind = source.toList) :
    String.Pos.Raw.IsValid source ⟨utf8Len before⟩ := by
  refine String.Pos.Raw.isValid_iff_exists_append.mpr
    ⟨String.ofList before, String.ofList behind, ?_, (String.rawEndPos_ofList before).symm⟩
  rw [← String.ofList_append, whole, String.ofList_toList]

theorem extract_of_whole {source : String} (p : Piece source.toList) :
    String.Pos.Raw.extract source ⟨p.span.start⟩ ⟨p.span.stop⟩ = String.ofList p.chars := by
  have found := String.extract_of_valid p.before p.chars p.behind
  rwa [p.whole, String.ofList_toList] at found

theorem Piece.stop_le {source : List Char} (p : Piece source) : p.span.stop ≤ utf8Len source := by
  have size := congrArg utf8Len p.whole
  rw [String.utf8Len_append, String.utf8Len_append] at size
  rw [← size, span]
  exact Nat.le_add_right _ _

theorem Piece.start_lt_stop {source : List Char} {p : Piece source} (nonempty : p.chars ≠ []) :
    p.span.start < p.span.stop := by
  obtain ⟨c, cs, chars⟩ := List.exists_cons_of_ne_nil nonempty
  have size := c.utf8Size_pos
  rw [span, chars, String.utf8Len_cons]
  dsimp only
  omega

theorem Reader.Blamed.pointsInto {α : Type} {source : String} {holds : α → Prop} {e : ReadError}
    (short : source.utf8ByteSize ≤ Span.maxOffset)
    (blamed : Reader.Blamed source.toList holds (.error e)) : e.PointsInto source := by
  rw [← String.utf8Len_toList] at short
  cases blamed with
  | @error cause p outside blames =>
    have size := p.stop_le
    have begins := Piece.start_lt_stop blames.nonempty
    have exact_ : Span.ofOffsets p.span.start p.span.stop = p.span := by
      rw [Span.ofOffsets, Nat.min_eq_left (by omega), Nat.min_eq_left (by omega)]
    rw [exact_]
    have stops : p.span.stop = utf8Len (p.before ++ p.chars) := (String.utf8Len_append _ _).symm
    exact
      { nonempty := begins
        inside := String.utf8Len_toList source ▸ size
        starts := isValid_of_append ((List.append_assoc ..).symm.trans p.whole)
        stops := stops ▸ isValid_of_append p.whole
        blames := ⟨p, rfl, extract_of_whole p, outside, blames⟩ }

theorem Datum.pointsInto_of_read {source : String} {e : ReadError}
    (short : source.utf8ByteSize < 4 * 1024 ^ 3) (failed : Datum.read source = .error e) :
    e.PointsInto source := by
  have read := Datum.blamed_read source
  rw [failed] at read
  refine read.pointsInto ?_
  unfold Span.maxOffset
  omega

end BlockScript
