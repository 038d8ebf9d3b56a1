import BlockScript.Interpreter
import BlockScript.Proofs.RoundTrip
import BlockScript.Proofs.Sites

/-!
# Words without their mark

A lit-word evaluates to the plain word, which is molded without the mark. Whether a run is a number
is decided with the mark still in front, and what remains behind the mark must only not begin with a
digit. So a sign or a point in front of a digit makes a lit-word all the same, and it is lost when
the plain word is molded: without the mark the run is read as a number, or not at all. Every other
lit-word gives a word that is read back.
-/

namespace BlockScript

namespace Datum

inductive MarkedDigit : List Char → Prop where
  | signed {mark digit : Char} (sign : mark ∈ ['+', '-', '.'])
      (isDigit : Digits.isDigit digit = true) (rest : List Char) :
      MarkedDigit (mark :: digit :: rest)
  | signedPoint {mark digit : Char} (sign : mark ∈ ['+', '-'])
      (isDigit : Digits.isDigit digit = true) (rest : List Char) :
      MarkedDigit (mark :: '.' :: digit :: rest)

inductive Lost (name : String) : Except ReadError (List Datum) → Prop where
  | integer (n : Int64) : Lost name (.ok [.integer n])
  | decimal (x : Float) : Lost name (.ok [.decimal x])
  | refused (span : Span) : Lost name (.error ⟨.invalidNumber name, span⟩)

variable {c : Char} {run body : List Char} {name : String} {d : Datum}

/-! ## Names that look like numbers -/

theorem not_isDigit_of_isName (isName : isName (c :: body) = true) : Digits.isDigit c = false := by
  simp only [Datum.isName, Bool.and_eq_true, Bool.not_eq_true'] at isName
  exact isName.2

theorem looksNumeric_of_markedDigit (marked : MarkedDigit body) : looksNumeric body = true := by
  cases marked with
  | signed sign isDigit rest =>
    simp only [List.mem_cons, List.not_mem_nil, or_false] at sign
    rcases sign with rfl | rfl | rfl <;> simp [looksNumeric, isDigit]
  | signedPoint sign isDigit rest =>
    simp only [List.mem_cons, List.not_mem_nil, or_false] at sign
    rcases sign with rfl | rfl <;> simp [looksNumeric, isDigit]

/-- A name begins with no digit, so it looks like a number only if a digit stands behind marks. -/
theorem looksNumeric_iff_markedDigit (name : isName body = true) :
    looksNumeric body = true ↔ MarkedDigit body := by
  refine ⟨fun numeric => ?_, looksNumeric_of_markedDigit⟩
  match body with
  | [] => cases numeric
  | [a] =>
    have first := not_isDigit_of_isName name
    simp [looksNumeric, first] at numeric
  | a :: b :: rest =>
    have first := not_isDigit_of_isName name
    simp only [looksNumeric, first, Bool.false_or, Bool.or_eq_true, Bool.and_eq_true,
      beq_iff_eq] at numeric
    rcases numeric with ⟨sign, isDigit⟩ | ⟨⟨sign, rfl⟩, behind⟩
    · exact .signed (by simpa [or_assoc] using sign) isDigit rest
    · obtain _ | ⟨c, rest⟩ := rest
      · cases behind
      · exact .signedPoint (by simpa using sign) behind rest

/-! ## Runs -/

theorem integer_or_decimal_of_readNumber? (read : readNumber? run = some d) :
    (∃ n, d = .integer n) ∨ ∃ x, d = .decimal x := by
  unfold readNumber? at read
  split at read
  · exact .inl ⟨_, (Option.some.inj read).symm⟩
  · split at read
    · obtain ⟨x, -, rfl⟩ := Option.map_eq_some_iff.mp read
      exact .inr ⟨x, rfl⟩
    · cases read

/-- A run is read as a lit-word only if a name stands behind the mark. -/
theorem litWord_of_ofRun (read : ofRun run = .ok (.word .litWord name)) :
    run = '\'' :: name.toList ∧ isName name.toList = true := by
  unfold ofRun at read
  split at read
  · split at read
    · next number =>
      cases read
      rcases integer_or_decimal_of_readNumber? number with ⟨n, same⟩ | ⟨x, same⟩ <;> cases same
    · cases read
  · have marks := mark_splitFlavour run
    generalize splitFlavour run = marked at read marks
    obtain ⟨f, body⟩ := marked
    dsimp only at read marks
    split at read
    · split at read
      · cases read
      · cases readWord_eq_ok read
    · split at read
      · split at read <;> cases read
      · unfold readWord at read
        split at read
        · next isName =>
          cases f <;> cases read
          exact ⟨by rw [String.toList_ofList]; exact marks.symm, by rwa [String.toList_ofList]⟩
        · cases read

theorem ofRun_name (isName : isName body = true) (plain : looksNumeric body = false) :
    ofRun body = .ok (.word .word (String.ofList body)) := by
  obtain ⟨nonempty, colon, quote, slash⟩ := isName_spec isName
  have unmarked : splitFlavour body = (.plain, body) :=
    splitFlavour_mark .plain nonempty colon quote
  have head : body.head? ≠ some '/' := fun same => slash (List.mem_of_head? same)
  simp [ofRun, plain, unmarked, head, slash, readWord, isName, Flavour.wordKind]

theorem ofRun_markedDigit (marked : MarkedDigit body) :
    (∃ n, ofRun body = .ok (.integer n)) ∨ (∃ x, ofRun body = .ok (.decimal x)) ∨
      ofRun body = .error (.invalidNumber (String.ofList body)) := by
  unfold ofRun
  rw [if_pos (looksNumeric_of_markedDigit marked)]
  cases number : readNumber? body with
  | none => exact .inr (.inr rfl)
  | some d =>
    rcases integer_or_decimal_of_readNumber? number with ⟨n, rfl⟩ | ⟨x, rfl⟩
    · exact .inl ⟨n, rfl⟩
    · exact .inr (.inl ⟨x, rfl⟩)

/-! ## Texts that are one run -/

/-- A text that is one run is read as what the run stands for. -/
theorem read_run (nonempty : run ≠ []) (continues : ∀ c ∈ run, Reader.isDelimiter c = false) :
    ∃ stop, Datum.read (String.ofList run) =
      match ofRun run with
      | .ok d => .ok [d]
      | .error cause => Reader.fail cause 0 stop := by
  obtain ⟨c, cs, rfl⟩ := List.exists_cons_of_ne_nil nonempty
  obtain ⟨hc, hcs⟩ := List.forall_mem_cons.mp continues
  have begun : Reader.read {} c = .ok ⟨0, .run 0 [c], [], []⟩ := Reader.start_of_continues hc
  obtain ⟨stop, rest⟩ := Reader.foldlM_run (0 + c.utf8Size) [] [] hcs 0 [c]
  have whole : (c :: cs).foldlM Reader.step {} =
      .ok ⟨stop, .run 0 (cs.reverse ++ [c]), [], []⟩ :=
    (Reader.foldlM_cons_ok (Reader.step_eq _ _ begun) cs).trans rest
  refine ⟨stop, ?_⟩
  have same : (cs.reverse ++ [c]).reverse = c :: cs := by simp
  rw [Datum.read, String.toList_ofList, whole]
  simp only [Except.bind, Reader.finish, Reader.endMode, Reader.addRun, same]
  cases ofRun (c :: cs) <;> rfl

/-- The name of a lit-word that was read: what stands behind the mark in one run of the text. -/
theorem litWord_of_source (source : (word .litWord name).Source) :
    isName name.toList = true ∧ ∀ c ∈ name.toList, Reader.isDelimiter c = false := by
  generalize same : word .litWord name = d at source
  cases source with
  | run read continues =>
    subst same
    obtain ⟨rfl, isName⟩ := litWord_of_ofRun read
    exact ⟨isName, (List.forall_mem_cons.mp continues).2⟩
  | text content => cases same
  | container delimiter each => cases delimiter <;> cases same

section Plain

variable (isName : isName name.toList = true)
  (continues : ∀ c ∈ name.toList, Reader.isDelimiter c = false)

include isName continues

theorem read_plain (plain : ¬ MarkedDigit name.toList) :
    Datum.read name = .ok [.word .word name] := by
  obtain ⟨stop, read⟩ := read_run (isName_spec isName).1 continues
  rw [← looksNumeric_iff_markedDigit isName, Bool.not_eq_true] at plain
  rw [ofRun_name isName plain, String.ofList_toList] at read
  exact read

theorem read_lost (marked : MarkedDigit name.toList) : Lost name (Datum.read name) := by
  obtain ⟨stop, read⟩ := read_run (isName_spec isName).1 continues
  rw [String.ofList_toList] at read
  rcases ofRun_markedDigit marked with ⟨n, number⟩ | ⟨x, number⟩ | refused
  · rw [number] at read
    rw [read]
    exact .integer n
  · rw [number] at read
    rw [read]
    exact .decimal x
  · rw [refused, String.ofList_toList] at read
    rw [read]
    exact .refused _

end Plain

end Datum

/-! ## Evaluation -/

theorem endsWith_loadBlock (h : Heap) {d : Datum} {v : Value} (same : h.load d = (v, h)) :
    (h.loadBlock [d]).2.EndsWith (h.loadBlock [d]).1 0 [v] := by
  simp [Heap.EndsWith, Heap.loadBlock, Heap.loadItems, same, Heap.newBlock, Heap.items]

/-- A block of one lit-word evaluates to the plain word and changes nothing. -/
theorem all_litWord {s : State} {block : BlockRef} {name : String} (fuel : Nat)
    (ends : s.heap.EndsWith block block.index [.word .litWord name]) :
    (evaluator (fuel + 2)).all block s = .ok (.word .word name) s := by
  have here : (evaluator (fuel + 2)).next block block.index s =
      .ok (some (.word .word name, block.index + 1)) s := by
    refine (expression_item ends.item?).trans (bind_of_ok (a := (_, _)) rfl _ |>.trans ?_)
    exact bind_of_ok (operators_none (State.operatorAt?_tail ends.tail.item?) _) _
  have tail : (evaluator (fuel + 2)).next block (block.index + 1) s = .ok none s :=
    expression_tail ends.tail.item?
  refine (bind_of_ok here _).trans ?_
  exact bind_of_ok tail _

theorem loadSource_of_read {source : String} {data : List Datum} (s : State)
    (read : Datum.read source = .ok data) :
    Interpreter.loadSource source s =
      .ok ((s.heap.loadBlock data).1, { s with heap := (s.heap.loadBlock data).2 }) := by
  simp only [Interpreter.loadSource, read]

theorem run_litWord {source name : String} (s : State)
    (read : Datum.read source = .ok [.word .litWord name]) :
    Interpreter.run source s = (.ok (.value (.word .word name)),
      { s with heap := (s.heap.loadBlock [.word .litWord name]).2 }) := by
  let block := (s.heap.loadBlock [.word .litWord name]).1
  let loaded : State := { s with heap := (s.heap.loadBlock [.word .litWord name]).2 }
  have ends : loaded.heap.EndsWith block block.index [.word .litWord name] :=
    endsWith_loadBlock s.heap rfl
  have evaluated : Interpreter.standard.all block loaded = .ok (.word .word name) loaded :=
    all_litWord 999999999998 ends
  have completed : Interpreter.complete Interpreter.standard block loaded =
      .ok (.value (.word .word name)) loaded := by
    rw [Interpreter.complete, evaluated]
  rw [Interpreter.run, loadSource_of_read s read]
  dsimp only
  rw [completed]

/-! ## Reading the plain word back -/

/-- The text that a plain word is molded to is read without a name that is new to the table, and is
loaded as one word that is strictly equal to it. -/
def WordReloads (h : Heap) (t : SymbolTable) (name : String) : Prop :=
  ∃ data, Datum.read (h.mold (.word .word name)) = .ok data ∧
    t.internAll (Datum.symbolsOf data) = t ∧
    let (block, h') := h.loadBlock data
    ∃ again, h'.tail block = [.word .word again] ∧
      h'.strictEqual (.word .word again) (.word .word name) = true

theorem denotes_word (h : Heap) (name : String) :
    Denotes h 0 (.word .word name) (.word .word name) := .word .word name

theorem mold_word (h : Heap) (name : String) : h.mold (.word .word name) = name :=
  ((denotes_word h name).mold (Nat.zero_le _)).trans String.ofList_toList

theorem strictEqual_word (h : Heap) (name : String) :
    h.strictEqual (.word .word name) (.word .word name) = true :=
  strictEqual_of_denotes (denotes_word h name) (denotes_word h name) (by simp [Datum.decimals])

theorem wordReloads_of_read {h : Heap} {t : SymbolTable} {name : String} (known : name ∈ t.texts)
    (read : Datum.read name = .ok [.word .word name]) : WordReloads h t name := by
  refine ⟨[.word .word name], by rw [mold_word, read], ?_, name, ?_, strictEqual_word _ _⟩
  · exact SymbolTable.internAll_of_forall_mem fun _ member => List.mem_singleton.mp member ▸ known
  · exact endsWith_loadBlock h (d := .word .word name) rfl

theorem not_wordReloads_of_lost {h : Heap} {t : SymbolTable} {name : String}
    (lost : Datum.Lost name (Datum.read name)) : ¬ WordReloads h t name := by
  rintro ⟨data, read, -, again, tail, -⟩
  rw [mold_word] at read
  rw [read] at lost
  cases lost with
  | integer n => cases (endsWith_loadBlock h (d := .integer n) rfl).symm.trans tail
  | decimal x => cases (endsWith_loadBlock h (d := .decimal x) rfl).symm.trans tail

/-- A text that is one lit-word evaluates to the plain word. That word is read back from its text,
with the table of names as the first reading left it, unless a sign or point and a digit begin it;
then its text is a number or refused as one. -/
theorem litWord_reloads_iff {source name : String} (s : State) (t : SymbolTable)
    (read : Datum.read source = .ok [.word .litWord name]) :
    ∃ u, Interpreter.run source s = (.ok (.value (.word .word name)), u) ∧
      (WordReloads u.heap (t.internAll (Datum.symbolsOf [.word .litWord name])) name ↔
        ¬ Datum.MarkedDigit name.toList) ∧
      (Datum.MarkedDigit name.toList →
        Datum.Lost name (Datum.read (u.heap.mold (.word .word name)))) := by
  obtain ⟨isName, continues⟩ :=
    Datum.litWord_of_source (Datum.source_of_read read _ List.mem_cons_self)
  have lost (marked : Datum.MarkedDigit name.toList) := Datum.read_lost isName continues marked
  refine ⟨_, run_litWord s read, ⟨fun reloads marked => ?_, fun plain => ?_⟩, fun marked => ?_⟩
  · exact not_wordReloads_of_lost (lost marked) reloads
  · have known := SymbolTable.mem_internAll (List.mem_singleton_self name) t
    exact wordReloads_of_read known (Datum.read_plain isName continues plain)
  · rw [mold_word]
    exact lost marked

theorem read_hyphenated : Datum.read " 'a-1 ; b" = .ok [.word .litWord "a-1"] := by
  with_unfolding_all rfl

/-- A sign inside of a word is no mark in front of a digit. -/
theorem litWord_reloads_iff_hyphenated :
    Datum.read " 'a-1 ; b" = .ok [.word .litWord "a-1"] ∧
      ∃ u, Interpreter.run " 'a-1 ; b" (Interpreter.initial 500 false) =
          (.ok (.value (.word .word "a-1")), u) ∧
        WordReloads u.heap (SymbolTable.initial.internAll ["a-1"]) "a-1" := by
  obtain ⟨u, run, reloads, -⟩ :=
    litWord_reloads_iff (Interpreter.initial 500 false) .initial read_hyphenated
  refine ⟨read_hyphenated, u, run, reloads.mpr fun marked => ?_⟩
  cases marked with
  | signed sign isDigit rest => exact absurd sign (by decide)

/-- A signed number with the mark in front is a lit-word, and the word is lost as the number. -/
theorem litWord_lost_plusOne :
    Datum.read "'+1" = .ok [.word .litWord "+1"] ∧
      ∃ u, Interpreter.run "'+1" (Interpreter.initial 500 false) =
          (.ok (.value (.word .word "+1")), u) ∧
        Datum.read (u.heap.mold (.word .word "+1")) = .ok [.integer 1] ∧
        ¬ WordReloads u.heap (SymbolTable.initial.internAll ["+1"]) "+1" := by
  have marked : Datum.read "'+1" = .ok [.word .litWord "+1"] := by with_unfolding_all rfl
  have plain : Datum.read "+1" = .ok [.integer 1] := by with_unfolding_all rfl
  refine ⟨marked, _, run_litWord _ marked, by rw [mold_word, plain], ?_⟩
  exact not_wordReloads_of_lost (plain ▸ .integer 1)

end BlockScript
