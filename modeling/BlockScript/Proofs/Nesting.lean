import BlockScript.Proofs.Lexemes

/-!
# Brackets decide what is read

Where the lexemes of a source are sound, only its brackets decide whether it is read. It is read
exactly when they are well nested. Otherwise a bracket is to blame: the first closer that does not
match the innermost opener still open before it, or else the innermost opener still open at the end.
-/

namespace BlockScript

/-! ## Well nested brackets -/

inductive WellNested : List Bracket → Prop where
  | nil : WellNested []
  | append {bs bs' : List Bracket} (first : WellNested bs) (second : WellNested bs') :
      WellNested (bs ++ bs')
  | wrap (delimiter : Delimiter) (pos pos' : Nat) {inside : List Bracket}
      (nested : WellNested inside) :
      WellNested (.opener delimiter pos :: inside ++ [.closer delimiter pos'])

/-- Every closer matches, and the listed openers are still open, innermost first. -/
inductive StillOpen : List Bracket → List (Delimiter × Nat) → Prop where
  | none {bs : List Bracket} (nested : WellNested bs) : StillOpen bs []
  | opener {bs inside : List Bracket} {os : List (Delimiter × Nat)} (before : StillOpen bs os)
      (delimiter : Delimiter) (pos : Nat) (nested : WellNested inside) :
      StillOpen (bs ++ .opener delimiter pos :: inside) ((delimiter, pos) :: os)

/-- The first closer that does not match the innermost opener still open before it, or before which
no opener is open. -/
def Mismatched (bs : List Bracket) (delimiter : Delimiter) (pos : Nat) : Prop :=
  ∃ before after os, bs = before ++ .closer delimiter pos :: after ∧ StillOpen before os ∧
    os.head?.map Prod.fst ≠ some delimiter

variable {bs inside : List Bracket} {os : List (Delimiter × Nat)}

theorem StillOpen.append (h : StillOpen bs os) (nested : WellNested inside) :
    StillOpen (bs ++ inside) os := by
  cases h with
  | none first => exact .none (first.append nested)
  | opener before delimiter pos first =>
    rw [List.append_assoc, List.cons_append]
    exact .opener before delimiter pos (first.append nested)

/-- A closer that matches closes the innermost opener. -/
theorem StillOpen.close {delimiter : Delimiter} {pos : Nat}
    (h : StillOpen bs ((delimiter, pos) :: os)) (pos' : Nat) :
    StillOpen (bs ++ [.closer delimiter pos']) os := by
  cases h with
  | opener before _ _ nested =>
    rw [List.append_assoc]
    exact before.append (.wrap delimiter pos pos' nested)

/-- Either every closer matches, or one is the first that does not. -/
theorem stillOpen_or_mismatched (bs : List Bracket) :
    (∃ os, StillOpen bs os) ∨ ∃ delimiter pos, Mismatched bs delimiter pos := by
  induction bs using List.reverseRecOn with
  | nil => exact .inl ⟨[], .none .nil⟩
  | append_singleton bs b ih =>
    rcases ih with ⟨os, still⟩ | ⟨delimiter, pos, before, after, os, rfl, still, other⟩
    · cases b with
      | opener delimiter pos => exact .inl ⟨_, .opener still delimiter pos .nil⟩
      | closer delimiter pos =>
        by_cases same : os.head?.map Prod.fst = some delimiter
        · obtain ⟨⟨_, start⟩, head, rfl⟩ := Option.map_eq_some_iff.mp same
          obtain ⟨outer, rfl⟩ := List.head?_eq_some_iff.mp head
          exact .inl ⟨outer, still.close pos⟩
        · exact .inr ⟨delimiter, pos, bs, [], os, rfl, still, same⟩
    · refine .inr ⟨delimiter, pos, before, after ++ [b], os, ?_, still, other⟩
      rw [List.append_assoc, List.cons_append]

/-! ## Verdicts -/

def unexpectedCloser (delimiter : Delimiter) (pos : Nat) : ReadError :=
  ⟨.unexpectedDelimiter delimiter.closer, .ofOffsets pos (pos + 1)⟩

def unclosedOpener (delimiter : Delimiter) (pos : Nat) : ReadError :=
  ⟨.unclosedDelimiter delimiter.closer, .ofOffsets pos (pos + 1)⟩

def verdict : List (Delimiter × Nat) → List Bracket → Option ReadError
  | [], [] => none
  | (delimiter, pos) :: _, [] => some (unclosedOpener delimiter pos)
  | os, .opener delimiter pos :: bs => verdict ((delimiter, pos) :: os) bs
  | [], .closer delimiter pos :: _ => some (unexpectedCloser delimiter pos)
  | (innermost, _) :: os, .closer delimiter pos :: bs =>
    if innermost = delimiter then verdict os bs else some (unexpectedCloser delimiter pos)

theorem verdict_nested (h : WellNested bs) (os : List (Delimiter × Nat)) (rest : List Bracket) :
    verdict os (bs ++ rest) = verdict os rest := by
  induction h generalizing os rest with
  | nil => rfl
  | append first second ih ih' => rw [List.append_assoc, ih, ih']
  | wrap delimiter pos pos' nested ih =>
    rw [List.append_assoc, List.cons_append, verdict, ih, List.singleton_append, verdict,
      if_pos rfl]

theorem verdict_stillOpen (h : StillOpen bs os) (rest : List Bracket) :
    verdict [] (bs ++ rest) = verdict os rest := by
  induction h generalizing rest with
  | none nested => exact verdict_nested nested [] rest
  | opener before delimiter pos nested ih =>
    rw [List.append_assoc, List.cons_append, ih, verdict, verdict_nested nested]

theorem verdict_mismatched {delimiter : Delimiter} {pos : Nat}
    (h : Mismatched bs delimiter pos) : verdict [] bs = some (unexpectedCloser delimiter pos) := by
  obtain ⟨before, after, os, rfl, still, other⟩ := h
  rw [verdict_stillOpen still]
  cases os with
  | nil => rfl
  | cons o os =>
    have differ : o.1 ≠ delimiter := fun same => other (congrArg some same)
    rw [verdict, if_neg differ]

/-! ## Reading under a verdict -/

def Follows (outcome : Except ReadError (List Datum)) : Option ReadError → Prop
  | none => ∃ data, outcome = .ok data
  | some e => outcome = .error e

namespace Reader

variable (pos : Nat) (items : List Datum) (enclosing : List Opened)

def opened (enclosing : List Opened) : List (Delimiter × Nat) :=
  enclosing.map fun o => (o.delimiter, o.start)

theorem split_bracket {c : Char} {cs : List Char} {b : Char}
    (chars : (Lexeme.split c cs).1.chars = [b]) : c = b ∧ (Lexeme.split c cs).2 = cs := by
  obtain ⟨more, spelled, rest⟩ := Lexeme.split_spec c cs
  rw [chars] at spelled
  cases spelled
  exact ⟨rfl, rest⟩

theorem outcome_opener (delimiter : Delimiter) (cs : List Char) :
    outcome ⟨pos, .between, items, enclosing⟩ (delimiter.opener :: cs) =
      outcome ⟨pos + delimiter.opener.utf8Size, .between, [], ⟨delimiter, pos, items⟩ :: enclosing⟩
        cs := by
  have read : Reader.read ⟨pos, .between, items, enclosing⟩ delimiter.opener =
      .ok (openContainer ⟨pos, .between, items, enclosing⟩ delimiter) := by
    cases delimiter <;> rfl
  exact outcome_cons read cs

theorem outcome_closer (delimiter : Delimiter) (cs : List Char) :
    outcome ⟨pos, .between, items, enclosing⟩ (delimiter.closer :: cs) =
      (closeContainer ⟨pos, .between, items, enclosing⟩ delimiter).bind fun next =>
        outcome { next with pos := pos + delimiter.closer.utf8Size } cs := by
  have read : Reader.read ⟨pos, .between, items, enclosing⟩ delimiter.closer =
      closeContainer ⟨pos, .between, items, enclosing⟩ delimiter := by
    cases delimiter <;> rfl
  rw [outcome, List.foldlM_cons, step, read]
  cases closeContainer ⟨pos, .between, items, enclosing⟩ delimiter <;> rfl

/-- The reader passes the verdict on what is to come, given the openers that it has open. -/
theorem outcome_follows (cs : List Char) (sound : ∀ lexeme ∈ lexemes cs, lexeme.Sound) :
    Follows (outcome ⟨pos, .between, items, enclosing⟩ cs)
      (verdict (opened enclosing) (brackets pos (lexemes cs))) := by
  fun_induction lexemes cs generalizing pos items enclosing with
  | case1 =>
    cases enclosing with
    | nil => exact ⟨items.reverse, rfl⟩
    | cons o enclosing => rfl
  | case2 c cs ih =>
    obtain ⟨here, behind⟩ := List.forall_mem_cons.mp sound
    have size (c : Char) : String.utf8Len [c] = c.utf8Size := by simp
    cases lexeme : (Lexeme.split c cs).1 with
    | opener delimiter =>
      obtain ⟨rfl, rest⟩ := split_bracket (congrArg Lexeme.chars lexeme)
      rw [rest] at ih behind ⊢
      change Follows _ (verdict (opened enclosing)
        (.opener delimiter pos :: brackets _ (lexemes cs)))
      rw [outcome_opener, ← size, verdict]
      exact ih _ _ _ behind
    | closer delimiter =>
      obtain ⟨rfl, rest⟩ := split_bracket (congrArg Lexeme.chars lexeme)
      rw [rest] at ih behind ⊢
      rw [outcome_closer, ← size]
      cases enclosing with
      | nil => rfl
      | cons o enclosing =>
        have judged : verdict (opened (o :: enclosing))
            (brackets pos (.closer delimiter :: lexemes cs)) =
              if o.delimiter = delimiter then
                verdict (opened enclosing)
                  (brackets (pos + String.utf8Len [delimiter.closer]) (lexemes cs))
              else some (unexpectedCloser delimiter pos) := rfl
        rw [judged, closeContainer]
        dsimp only
        by_cases same : o.delimiter = delimiter
        · rw [if_pos same, if_pos same]
          exact ih _ _ _ behind
        · rw [if_neg same, if_neg same]
          rfl
    | _ =>
      obtain ⟨items', same⟩ := outcome_lexeme pos items enclosing here (by rw [lexeme]; rfl)
      rw [same, lexeme]
      exact ih _ _ _ behind

end Reader

/-! ## Sources -/

structure BracketsDecide (bs : List Bracket) (outcome : Except ReadError (List Datum)) : Prop where
  read_iff : (∃ data, outcome = .ok data) ↔ WellNested bs
  mismatched (delimiter : Delimiter) (pos : Nat) :
    Mismatched bs delimiter pos → outcome = .error (unexpectedCloser delimiter pos)
  unclosed (delimiter : Delimiter) (pos : Nat) (outer : List (Delimiter × Nat)) :
    StillOpen bs ((delimiter, pos) :: outer) → outcome = .error (unclosedOpener delimiter pos)
  /-- One of the three is the case. -/
  complete : WellNested bs ∨ (∃ delimiter pos, Mismatched bs delimiter pos) ∨
    ∃ delimiter pos outer, StillOpen bs ((delimiter, pos) :: outer)

theorem brackets_decide_reading (source : String)
    (sound : ∀ lexeme ∈ lexemes source.toList, lexeme.Sound) :
    BracketsDecide (brackets 0 (lexemes source.toList)) (Datum.read source) := by
  have follows : Follows (Datum.read source) (verdict [] (brackets 0 (lexemes source.toList))) :=
    Reader.outcome_follows 0 [] [] source.toList sound
  generalize brackets 0 (lexemes source.toList) = bs at follows ⊢
  have mismatched (delimiter : Delimiter) (pos : Nat) (h : Mismatched bs delimiter pos) :
      Datum.read source = .error (unexpectedCloser delimiter pos) := by
    rwa [verdict_mismatched h] at follows
  have unclosed (delimiter : Delimiter) (pos : Nat) (outer : List (Delimiter × Nat))
      (h : StillOpen bs ((delimiter, pos) :: outer)) :
      Datum.read source = .error (unclosedOpener delimiter pos) := by
    have judged := verdict_stillOpen h []
    rw [List.append_nil] at judged
    rwa [judged] at follows
  have complete : WellNested bs ∨ (∃ delimiter pos, Mismatched bs delimiter pos) ∨
      ∃ delimiter pos outer, StillOpen bs ((delimiter, pos) :: outer) := by
    rcases stillOpen_or_mismatched bs with ⟨os, still⟩ | mismatch
    · cases os with
      | nil =>
        cases still with
        | none nested => exact .inl nested
      | cons o os => exact .inr (.inr ⟨o.1, o.2, os, still⟩)
    · exact .inr (.inl mismatch)
  refine ⟨⟨fun ⟨data, read⟩ => ?_, fun nested => ?_⟩, mismatched, unclosed, complete⟩
  · rcases complete with nested | ⟨delimiter, pos, h⟩ | ⟨delimiter, pos, outer, h⟩
    · exact nested
    · rw [mismatched delimiter pos h] at read
      cases read
    · rw [unclosed delimiter pos outer h] at read
      cases read
  · have judged := verdict_nested nested [] []
    rw [List.append_nil] at judged
    rwa [judged] at follows

/-- Closers in a string and in a comment do not count; the one after them does not close a paren. -/
theorem brackets_decide_reading_mismatch :
    (∀ lexeme ∈ lexemes "[é \"]\" (\x7b)\x7d ; )\n ]".toList, lexeme.Sound) ∧
      Mismatched (brackets 0 (lexemes "[é \"]\" (\x7b)\x7d ; )\n ]".toList)) .square 18 ∧
      Datum.read "[é \"]\" (\x7b)\x7d ; )\n ]" = .error (unexpectedCloser .square 18) := by
  have row : lexemes "[é \"]\" (\x7b)\x7d ; )\n ]".toList =
      [.opener .square, .run ['é'], .blank ' ', .text ['"', ']', '"'], .blank ' ', .opener .round,
        .text ['\x7b', ')', '\x7d'], .blank ' ', .comment [';', ' ', ')'], .blank '\n', .blank ' ',
        .closer .square] := by
    with_unfolding_all rfl
  have sound : ∀ lexeme ∈ lexemes "[é \"]\" (\x7b)\x7d ; )\n ]".toList, lexeme.Sound := by
    have run : (Lexeme.run ['é']).Sound := ⟨.word .word "é", by with_unfolding_all rfl⟩
    rw [row]
    simpa [Lexeme.Sound] using run
  have mismatch :
      Mismatched (brackets 0 (lexemes "[é \"]\" (\x7b)\x7d ; )\n ]".toList)) .square 18 := by
    rw [row]
    exact ⟨[.opener .square 0, .opener .round 8], [], [(.round, 8), (.square, 0)], by decide,
      .opener (.opener (.none .nil) .square 0 .nil) .round 8 .nil, by decide⟩
  exact ⟨sound, mismatch, (brackets_decide_reading _ sound).mismatched .square 18 mismatch⟩

end BlockScript
