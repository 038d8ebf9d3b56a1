import BlockScript.Proofs.Runs

/-!
# Molded data are read back

Reading makes data of one kind: runs that were read, strings, and containers of such data. Each of
them is read back from its molded text wherever a delimiter follows it, which inside a container is
always so. The reader is left as if the datum had been added to the innermost open container; only
its position depends on the text.
-/

namespace BlockScript

theorem exists_of_bind_eq_ok {ε α β : Type} {x : Except ε α} {f : α → Except ε β} {b : β}
    (h : x.bind f = .ok b) : ∃ a, x = .ok a ∧ f a = .ok b := by
  cases x with
  | error e => cases h
  | ok a => exact ⟨a, rfl, h⟩

inductive Datum.Source : Datum → Prop where
  | run {run : List Char} {d : Datum} (read : Datum.ofRun run = .ok d)
      (continues : ∀ c ∈ run, Reader.isDelimiter c = false) : Source d
  | text (content : String) : Source (.text content)
  | container (delimiter : Delimiter) {items : List Datum} (each : ∀ item ∈ items, Source item) :
      Source (delimiter.datum items)

def Delimiter.opener : Delimiter → Char
  | square => '['
  | round => '('

namespace Reader

/-! ## What reading makes -/

structure Sound (r : Reader) : Prop where
  items : ∀ item ∈ r.items, item.Source
  enclosing : ∀ opened ∈ r.enclosing, ∀ item ∈ opened.before, item.Source
  run : ∀ start chars, r.mode = .run start chars → ∀ c ∈ chars, isDelimiter c = false

variable {r r' : Reader} {c : Char}

theorem Sound.add (h : r.Sound) {d : Datum} (source : d.Source) : (r.add d).Sound where
  items := List.forall_mem_cons.mpr ⟨source, h.items⟩
  enclosing := h.enclosing
  run _ _ same := by cases same

theorem Sound.addRun (h : r.Sound) {start : Nat} {chars : List Char}
    (continues : ∀ c ∈ chars, isDelimiter c = false) (added : r.addRun start chars = .ok r') :
    r'.Sound := by
  unfold Reader.addRun at added
  split at added
  · next item read =>
    cases added
    exact h.add (.run read fun c member => continues c (List.mem_reverse.mp member))
  · cases added

theorem Sound.openContainer (h : r.Sound) (delimiter : Delimiter) :
    (r.openContainer delimiter).Sound where
  items _ member := by cases member
  enclosing := List.forall_mem_cons.mpr ⟨h.items, h.enclosing⟩
  run _ _ same := by cases same

theorem Sound.closeContainer (h : r.Sound) {delimiter : Delimiter}
    (closed : r.closeContainer delimiter = .ok r') : r'.Sound := by
  unfold Reader.closeContainer at closed
  split at closed
  · next opened outer enclosing =>
    split at closed
    · cases closed
      have outside := h.enclosing
      rw [enclosing, List.forall_mem_cons] at outside
      refine ⟨List.forall_mem_cons.mpr ⟨?_, outside.1⟩, outside.2, fun _ _ same => by cases same⟩
      exact .container delimiter fun item member => h.items item (List.mem_reverse.mp member)
    · cases closed
  · cases closed

/-- A change of mode keeps the reader sound, unless it is to a run. -/
theorem Sound.enter (h : r.Sound) {mode : Mode}
    (next : (.ok { r with mode } : Except ReadError Reader) = .ok r')
    (noRun : ∀ start chars, mode ≠ .run start chars) : r'.Sound := by
  cases next
  exact ⟨h.items, h.enclosing, fun start chars same => absurd same (noRun start chars)⟩

/-- A character that continues a run begins one as well. -/
theorem start_of_continues (h : isDelimiter c = false) :
    r.start c = .ok { r with mode := .run r.pos [c] } := by
  unfold Reader.start
  split <;> first | rfl | exact absurd h (by decide)

theorem Sound.start (h : r.Sound) (started : r.start c = .ok r') : r'.Sound := by
  by_cases delimiter : isDelimiter c = true
  · unfold Reader.start at started
    split at started
    · exact h.enter started fun _ _ => Mode.noConfusion
    · exact h.enter started fun _ _ => Mode.noConfusion
    · exact h.enter started fun _ _ => Mode.noConfusion
    · exact h.enter started fun _ _ => Mode.noConfusion
    · exact h.enter started fun _ _ => Mode.noConfusion
    · cases started; exact h.openContainer .square
    · cases started; exact h.openContainer .round
    · exact h.closeContainer started
    · exact h.closeContainer started
    · cases started
    · exact h.enter started fun _ _ => Mode.noConfusion
    · exact h.enter started fun _ _ => Mode.noConfusion
    · simp_all [isDelimiter]
  · have continues : isDelimiter c = false := by simpa using delimiter
    rw [start_of_continues continues] at started
    cases started
    refine ⟨h.items, h.enclosing, fun start chars same => ?_⟩
    cases same
    exact fun c' member => List.mem_singleton.mp member ▸ continues

theorem Sound.addText (h : r.Sound) (chars : List Char) : (r.addText chars).Sound :=
  h.add (.text _)

theorem Sound.read (h : r.Sound) (next : r.read c = .ok r') : r'.Sound := by
  unfold Reader.read at next
  split at next
  · exact h.start next
  · cases next
    split
    · exact h.enter rfl fun _ _ => Mode.noConfusion
    · exact h
  · next start chars mode =>
    have continues := h.run start chars mode
    split at next
    · obtain ⟨added, run, next⟩ := exists_of_bind_eq_ok next
      exact (h.addRun continues run).start next
    · next other =>
      cases next
      refine ⟨h.items, h.enclosing, fun start chars same => ?_⟩
      cases same
      exact List.forall_mem_cons.mpr ⟨by simpa using other, continues⟩
  · exact h.enter next fun _ _ => Mode.noConfusion
  · split at next
    · cases next; exact h.addText _
    · exact h.enter next fun _ _ => Mode.noConfusion
    · cases next
    · exact h.enter next fun _ _ => Mode.noConfusion
  · exact h.enter next fun _ _ => Mode.noConfusion
  · split at next
    · exact h.enter next fun _ _ => Mode.noConfusion
    · cases next
      split
      · exact h.addText _
      · exact h.enter rfl fun _ _ => Mode.noConfusion
    · exact h.enter next fun _ _ => Mode.noConfusion
    · exact h.enter next fun _ _ => Mode.noConfusion

theorem Sound.step (h : r.Sound) (next : r.step c = .ok r') : r'.Sound := by
  obtain ⟨r'', read, moved⟩ := exists_of_bind_eq_ok (f := fun next => .ok _) next
  cases moved
  have sound := h.read read
  exact ⟨sound.items, sound.enclosing, sound.run⟩

theorem Sound.foldlM (h : r.Sound) {cs : List Char} (read : cs.foldlM Reader.step r = .ok r') :
    r'.Sound := by
  induction cs generalizing r with
  | nil =>
    cases read
    exact h
  | cons c cs ih =>
    rw [List.foldlM_cons] at read
    obtain ⟨r'', step, read⟩ := exists_of_bind_eq_ok read
    exact ih (h.step step) read

theorem Sound.endMode (h : r.Sound) (ended : r.endMode = .ok r') : r'.Sound := by
  unfold Reader.endMode at ended
  split at ended
  · cases ended; exact h
  · cases ended; exact h
  · next start chars mode => exact h.addRun (h.run start chars mode) ended
  · cases ended
  · cases ended

theorem Sound.finish (h : r.Sound) {data : List Datum} (finished : r.finish = .ok data) :
    ∀ item ∈ data, item.Source := by
  obtain ⟨last, ended, finished⟩ := exists_of_bind_eq_ok finished
  have sound := h.endMode ended
  split at finished
  · cases finished
    exact fun item member => sound.items item (List.mem_reverse.mp member)
  · cases finished

end Reader

theorem Datum.source_of_read {source : String} {data : List Datum}
    (read : Datum.read source = .ok data) : ∀ item ∈ data, item.Source := by
  obtain ⟨r, run, finished⟩ := exists_of_bind_eq_ok read
  have initial : Reader.Sound {} :=
    { items := fun _ member => by cases member
      enclosing := fun _ member => by cases member
      run := fun _ _ same => by cases same }
  exact (initial.foldlM run).finish finished

/-! ## Reading what was molded -/

namespace Reader

/-- A reader goes on with a delimiter as one that has these data and is between two of them. -/
def Pending (r : Reader) (items : List Datum) (enclosing : List Opened) : Prop :=
  ∀ c, isDelimiter c = true → r.read c = Reader.start ⟨r.pos, .between, items, enclosing⟩ c

theorem pending_between (pos : Nat) (items : List Datum) (enclosing : List Opened) :
    Pending ⟨pos, .between, items, enclosing⟩ items enclosing := fun _ _ => rfl

def ReadsBack (d : Datum) : Prop :=
  ∀ pos items enclosing, ∃ r,
    d.mold.foldlM Reader.step ⟨pos, .between, items, enclosing⟩ = .ok r ∧
      r.Pending (d :: items) enclosing

theorem step_eq (r : Reader) (c : Char) {next : Reader} (read : r.read c = .ok next) :
    r.step c = .ok { next with pos := r.pos + c.utf8Size } := by
  rw [Reader.step, read]
  rfl

theorem foldlM_cons_ok {r r' : Reader} {c : Char} (h : r.step c = .ok r') (cs : List Char) :
    (c :: cs).foldlM Reader.step r = cs.foldlM Reader.step r' := by
  rw [List.foldlM_cons, h]
  rfl

theorem foldlM_append_ok {r r' : Reader} {cs : List Char} (h : cs.foldlM Reader.step r = .ok r')
    (cs' : List Char) : (cs ++ cs').foldlM Reader.step r = cs'.foldlM Reader.step r' := by
  rw [List.foldlM_append, h]
  rfl

section Text

variable (pos : Nat) (items : List Datum) (enclosing : List Opened)

/-! ### Runs -/

theorem foldlM_run {cs : List Char} (continues : ∀ c ∈ cs, isDelimiter c = false) (start : Nat)
    (chars : List Char) : ∃ pos',
      cs.foldlM Reader.step ⟨pos, .run start chars, items, enclosing⟩ =
        .ok ⟨pos', .run start (cs.reverse ++ chars), items, enclosing⟩ := by
  induction cs generalizing pos chars with
  | nil => exact ⟨pos, rfl⟩
  | cons c cs ih =>
    obtain ⟨hc, hcs⟩ := List.forall_mem_cons.mp continues
    have read : Reader.read ⟨pos, .run start chars, items, enclosing⟩ c =
        .ok ⟨pos, .run start (c :: chars), items, enclosing⟩ := by
      simp only [Reader.read, hc]
      rfl
    obtain ⟨pos', run⟩ := ih (pos + c.utf8Size) hcs (c :: chars)
    refine ⟨pos', ?_⟩
    rw [foldlM_cons_ok (step_eq _ _ read), List.reverse_cons, List.append_assoc]
    exact run

theorem readsBack_run {d : Datum} (read : Datum.ofRun d.mold = .ok d)
    (continues : ∀ c ∈ d.mold, isDelimiter c = false) : ReadsBack d := by
  intro pos items enclosing
  cases run : d.mold with
  | nil =>
    rw [run] at read
    cases read
  | cons c cs =>
    rw [run] at continues
    obtain ⟨hc, hcs⟩ := List.forall_mem_cons.mp continues
    have first : Reader.read ⟨pos, .between, items, enclosing⟩ c =
        .ok ⟨pos, .run pos [c], items, enclosing⟩ := start_of_continues hc
    obtain ⟨pos', rest⟩ := foldlM_run (pos + c.utf8Size) items enclosing hcs pos [c]
    refine ⟨_, (foldlM_cons_ok (step_eq _ _ first) cs).trans rest, fun c' delimiter => ?_⟩
    have whole : (cs.reverse ++ [c]).reverse = d.mold := by simp [run]
    simp only [Reader.read, delimiter, if_true, Reader.addRun, whole, read]
    rfl

/-! ### Strings -/

theorem foldlM_escape (cs : List Char) (start : Nat) (chars : List Char) : ∃ pos',
    (cs.flatMap Text.escapeChar).foldlM Reader.step
        ⟨pos, .quoted start chars false, items, enclosing⟩ =
      .ok ⟨pos', .quoted start (cs.reverse ++ chars) false, items, enclosing⟩ := by
  induction cs generalizing pos chars with
  | nil => exact ⟨pos, rfl⟩
  | cons c cs ih =>
    have one : ∃ pos', (Text.escapeChar c).foldlM Reader.step
        ⟨pos, .quoted start chars false, items, enclosing⟩ =
          .ok ⟨pos', .quoted start (c :: chars) false, items, enclosing⟩ := by
      unfold Text.escapeChar
      split
      · exact ⟨_, rfl⟩
      · exact ⟨_, rfl⟩
      · exact ⟨_, rfl⟩
      · exact ⟨_, rfl⟩
      · next quote caret newline _ =>
        have read : Reader.read ⟨pos, .quoted start chars false, items, enclosing⟩ c =
            .ok ⟨pos, .quoted start (c :: chars) false, items, enclosing⟩ := by
          unfold Reader.read
          dsimp only
          split
          · exact absurd rfl quote
          · exact absurd rfl caret
          · exact absurd rfl newline
          · rfl
        exact ⟨_, foldlM_cons_ok (step_eq _ _ read) []⟩
    obtain ⟨pos₁, one⟩ := one
    obtain ⟨pos', rest⟩ := ih pos₁ (c :: chars)
    refine ⟨pos', ?_⟩
    rw [List.flatMap_cons, foldlM_append_ok one, List.reverse_cons, List.append_assoc]
    exact rest

theorem readsBack_text (content : String) : ReadsBack (.text content) := by
  intro pos items enclosing
  obtain ⟨pos', inside⟩ :=
    foldlM_escape (pos + '"'.utf8Size) items enclosing content.toList pos []
  refine ⟨⟨pos' + '"'.utf8Size, .between, .text content :: items, enclosing⟩, ?_,
    pending_between _ _ _⟩
  have opened : Reader.step ⟨pos, .between, items, enclosing⟩ '"' =
      .ok ⟨pos + '"'.utf8Size, .quoted pos [] false, items, enclosing⟩ := rfl
  have whole : String.ofList (content.toList.reverse ++ []).reverse = content := by simp
  have closed : Reader.step ⟨pos', .quoted pos (content.toList.reverse ++ []) false, items,
      enclosing⟩ '"' = .ok ⟨pos' + '"'.utf8Size, .between, .text content :: items, enclosing⟩ := by
    conv_rhs => rw [← whole]
    rfl
  rw [Datum.mold, Text.quote, String.toList_ofList, List.cons_append, foldlM_cons_ok opened,
    foldlM_append_ok inside, foldlM_cons_ok closed]
  rfl

end Text

/-! ### Containers -/

theorem foldlM_moldItems {data : List Datum} (each : ∀ item ∈ data, ReadsBack item) (pos : Nat)
    (items : List Datum) (enclosing : List Opened) : ∃ r,
      (Datum.moldItems data).foldlM Reader.step ⟨pos, .between, items, enclosing⟩ = .ok r ∧
        r.Pending (data.reverse ++ items) enclosing := by
  induction data generalizing pos items with
  | nil => exact ⟨_, rfl, pending_between _ _ _⟩
  | cons item data ih =>
    obtain ⟨hitem, hdata⟩ := List.forall_mem_cons.mp each
    obtain ⟨r, read, pending⟩ := hitem pos items enclosing
    cases data with
    | nil => exact ⟨r, read, pending⟩
    | cons next data =>
      have blank : r.step ' ' = .ok ⟨r.pos + ' '.utf8Size, .between, item :: items, enclosing⟩ :=
        step_eq r ' ' (pending ' ' (by decide))
      obtain ⟨r', rest, pending'⟩ := ih hdata (r.pos + ' '.utf8Size) (item :: items)
      refine ⟨r', ?_, ?_⟩
      · rw [Datum.moldItems, foldlM_append_ok read, foldlM_cons_ok blank]
        · exact rest
        · exact fun same => by cases same
      · rw [List.reverse_cons, List.append_assoc]
        exact pending'

theorem foldlM_container (delimiter : Delimiter) {data : List Datum}
    (each : ∀ item ∈ data, ReadsBack item) (pos : Nat) (items : List Datum)
    (enclosing : List Opened) : ∃ pos',
      (delimiter.datum data).mold.foldlM Reader.step ⟨pos, .between, items, enclosing⟩ =
        .ok ⟨pos', .between, delimiter.datum data :: items, enclosing⟩ := by
  let inner : List Opened := ⟨delimiter, pos, items⟩ :: enclosing
  obtain ⟨r, inside, pending⟩ := foldlM_moldItems each (pos + delimiter.opener.utf8Size) [] inner
  refine ⟨r.pos + delimiter.closer.utf8Size, ?_⟩
  have opened : Reader.step ⟨pos, .between, items, enclosing⟩ delimiter.opener =
      .ok ⟨pos + delimiter.opener.utf8Size, .between, [], inner⟩ := by
    cases delimiter <;> rfl
  have closed : r.step delimiter.closer = .ok ⟨r.pos + delimiter.closer.utf8Size, .between,
      delimiter.datum data :: items, enclosing⟩ := by
    have read := pending delimiter.closer (by cases delimiter <;> decide)
    rw [List.append_nil] at read
    have close : Reader.start ⟨r.pos, .between, data.reverse, inner⟩ delimiter.closer =
        .ok ⟨r.pos, .between, delimiter.datum data :: items, enclosing⟩ := by
      cases delimiter <;> simp [inner, Reader.start, Reader.closeContainer, Delimiter.closer]
    exact step_eq r _ (read.trans close)
  have text : (delimiter.datum data).mold =
      delimiter.opener :: (Datum.moldItems data ++ [delimiter.closer]) := by
    cases delimiter <;> simp [Delimiter.datum, Delimiter.opener, Delimiter.closer, Datum.mold]
  rw [text, foldlM_cons_ok opened, foldlM_append_ok inside, foldlM_cons_ok closed]
  rfl

theorem readsBack_container (delimiter : Delimiter) {data : List Datum}
    (each : ∀ item ∈ data, ReadsBack item) : ReadsBack (delimiter.datum data) := by
  intro pos items enclosing
  obtain ⟨pos', read⟩ := foldlM_container delimiter each pos items enclosing
  exact ⟨_, read, pending_between _ _ _⟩

end Reader

namespace Datum

mutual

def decimals : Datum → List Float
  | decimal x => [x]
  | block items => decimalsOf items
  | paren items => decimalsOf items
  | integer _ => []
  | text _ => []
  | word _ _ => []
  | path _ _ => []

def decimalsOf : List Datum → List Float
  | [] => []
  | item :: items => decimals item ++ decimalsOf items

end

theorem mem_decimalsOf {item : Datum} {items : List Datum} {x : Float} (member : item ∈ items)
    (h : x ∈ item.decimals) : x ∈ decimalsOf items := by
  induction items with
  | nil => cases member
  | cons item' items ih =>
    rw [decimalsOf, List.mem_append]
    rcases List.mem_cons.mp member with rfl | member
    · exact .inl h
    · exact .inr (ih member)

theorem decimals_container (delimiter : Delimiter) (items : List Datum) :
    (delimiter.datum items).decimals = decimalsOf items := by
  cases delimiter <;> rfl

def DecimalsReadBack (xs : List Float) : Prop :=
  ∀ x ∈ xs, Decimal.read? (Decimal.text x).toList = some x

/-- What reading makes is read back from its molded text, as far as its decimals are. -/
theorem Source.readsBack {d : Datum} (source : d.Source) (decimals : DecimalsReadBack d.decimals) :
    Reader.ReadsBack d := by
  induction source with
  | text content => exact Reader.readsBack_text content
  | container delimiter _ ih =>
    refine Reader.readsBack_container delimiter fun item member => ih item member fun x h => ?_
    exact decimals x (decimals_container delimiter _ ▸ mem_decimalsOf member h)
  | run read continues =>
    obtain ⟨readMold, continuesMold⟩ := ofRun_mold read continues fun x same =>
      decimals x (same ▸ List.mem_singleton_self x)
    exact Reader.readsBack_run readMold continuesMold

/-- The molded text of a block is read as that one block. -/
theorem read_mold_block {items : List Datum} (source : ∀ item ∈ items, item.Source)
    (decimals : DecimalsReadBack (decimalsOf items)) :
    Datum.read (String.ofList (Datum.block items).mold) = .ok [.block items] := by
  have each : ∀ item ∈ items, Reader.ReadsBack item := fun item member =>
    (source item member).readsBack fun x h => decimals x (mem_decimalsOf member h)
  obtain ⟨pos, read⟩ := Reader.foldlM_container .square each 0 [] []
  have whole : (Datum.block items).mold.foldlM Reader.step {} =
      .ok ⟨pos, .between, [.block items], []⟩ := read
  rw [Datum.read, String.toList_ofList, whole]
  rfl

end Datum

end BlockScript
