import BlockScript.Proofs.Composition

/-!
# Lexemes

A source text is a row of lexemes: blanks, comments, brackets, strings and runs. Where a lexeme ends
does not depend on the brackets that are open. Reading goes from lexeme to lexeme: one that is sound
and no bracket leaves the reader between two data, with the same containers open.
-/

namespace BlockScript

inductive Bracket where
  | opener (delimiter : Delimiter) (pos : Nat)
  | closer (delimiter : Delimiter) (pos : Nat)
deriving DecidableEq, Repr

inductive Lexeme where
  | blank (c : Char)
  /-- A semicolon and what follows it in its line. -/
  | comment (chars : List Char)
  | opener (delimiter : Delimiter)
  | closer (delimiter : Delimiter)
  /-- A string with its quotes or braces. -/
  | text (chars : List Char)
  | run (chars : List Char)
  /-- A closing brace outside of all strings and comments. -/
  | brace
  /-- A quote or an opening brace whose string is never closed, and all that follows it. -/
  | unterminated (chars : List Char)
deriving DecidableEq, Repr

namespace Lexeme

def chars : Lexeme → List Char
  | blank c => [c]
  | comment chars => chars
  | opener delimiter => [delimiter.opener]
  | closer delimiter => [delimiter.closer]
  | text chars => chars
  | run chars => chars
  | brace => ['\x7d']
  | unterminated chars => chars

/-- Every string is terminated, no brace closes nothing, and a run stands for a datum. -/
def Sound : Lexeme → Prop
  | run chars => ∃ d, Datum.ofRun chars = .ok d
  | brace => False
  | unterminated _ => False
  | _ => True

def bracket? (pos : Nat) : Lexeme → Option Bracket
  | opener delimiter => some (.opener delimiter pos)
  | closer delimiter => some (.closer delimiter pos)
  | _ => none

/-! ## Splitting a text -/

/-- How many characters there are up to the quote that closes a string, in what follows the quote
that opens it. -/
def quotedLength? : List Char → Option Nat
  | [] => none
  | '"' :: _ => some 1
  | '\n' :: _ => none
  | '^' :: _ :: rest => (quotedLength? rest).map (· + 2)
  | _ :: rest => (quotedLength? rest).map (· + 1)

/-- How many characters there are up to the brace that closes a string, in what follows the brace
that opens it and as many further ones. -/
def bracedLength? : Nat → List Char → Option Nat
  | _, [] => none
  | 0, '\x7d' :: _ => some 1
  | depth + 1, '\x7d' :: rest => (bracedLength? depth rest).map (· + 1)
  | depth, '\x7b' :: rest => (bracedLength? (depth + 1) rest).map (· + 1)
  | depth, '^' :: _ :: rest => (bracedLength? depth rest).map (· + 2)
  | depth, _ :: rest => (bracedLength? depth rest).map (· + 1)

def ofString (c : Char) (cs : List Char) : Option Nat → Lexeme × List Char
  | some length => (text (c :: cs.take length), cs.drop length)
  | none => (unterminated (c :: cs), [])

def split (c : Char) (cs : List Char) : Lexeme × List Char :=
  match c with
  | ' ' | '\t' | '\n' | '\r' => (blank c, cs)
  | ';' => (comment (c :: cs.takeWhile (· != '\n')), cs.dropWhile (· != '\n'))
  | '[' => (opener .square, cs)
  | '(' => (opener .round, cs)
  | ']' => (closer .square, cs)
  | ')' => (closer .round, cs)
  | '\x7d' => (brace, cs)
  | '"' => ofString c cs (quotedLength? cs)
  | '\x7b' => ofString c cs (bracedLength? 0 cs)
  | _ =>
    (run (c :: cs.takeWhile (!Reader.isDelimiter ·)), cs.dropWhile (!Reader.isDelimiter ·))

theorem split_spec (c : Char) (cs : List Char) :
    ∃ more, (split c cs).1.chars = c :: more ∧ more ++ (split c cs).2 = cs := by
  have ofString_spec (found : Option Nat) :
      ∃ more, (ofString c cs found).1.chars = c :: more ∧ more ++ (ofString c cs found).2 = cs := by
    cases found with
    | none => exact ⟨cs, rfl, List.append_nil cs⟩
    | some length => exact ⟨cs.take length, rfl, List.take_append_drop length cs⟩
  unfold split
  split
  · exact ⟨[], rfl, rfl⟩
  · exact ⟨[], rfl, rfl⟩
  · exact ⟨[], rfl, rfl⟩
  · exact ⟨[], rfl, rfl⟩
  · exact ⟨_, rfl, List.takeWhile_append_dropWhile⟩
  · exact ⟨[], rfl, rfl⟩
  · exact ⟨[], rfl, rfl⟩
  · exact ⟨[], rfl, rfl⟩
  · exact ⟨[], rfl, rfl⟩
  · exact ⟨[], rfl, rfl⟩
  · exact ofString_spec _
  · exact ofString_spec _
  · exact ⟨_, rfl, List.takeWhile_append_dropWhile⟩

theorem chars_split (c : Char) (cs : List Char) :
    (split c cs).1.chars ++ (split c cs).2 = c :: cs := by
  obtain ⟨more, chars, rest⟩ := split_spec c cs
  rw [chars, List.cons_append, rest]

theorem length_split (c : Char) (cs : List Char) : (split c cs).2.length ≤ cs.length := by
  obtain ⟨more, -, rest⟩ := split_spec c cs
  have total := congrArg List.length rest
  rw [List.length_append] at total
  omega

end Lexeme

def lexemes : List Char → List Lexeme
  | [] => []
  | c :: cs => (Lexeme.split c cs).1 :: lexemes (Lexeme.split c cs).2
termination_by cs => cs.length
decreasing_by exact Nat.lt_succ_of_le (Lexeme.length_split c cs)

def brackets (pos : Nat) : List Lexeme → List Bracket
  | [] => []
  | lexeme :: rest =>
    (lexeme.bracket? pos).toList ++ brackets (pos + String.utf8Len lexeme.chars) rest

/-- No character of a text is lost or moved. -/
theorem flatMap_chars_lexemes (cs : List Char) : (lexemes cs).flatMap Lexeme.chars = cs := by
  fun_induction lexemes cs with
  | case1 => rfl
  | case2 c cs ih => rw [List.flatMap_cons, ih, Lexeme.chars_split]

/-! ## Reading lexemes -/

namespace Reader

def outcome (r : Reader) (cs : List Char) : Except ReadError (List Datum) :=
  (cs.foldlM step r).bind finish

section Outcome

variable (pos : Nat) (items : List Datum) (enclosing : List Opened)

theorem outcome_nil (r : Reader) : r.outcome [] = r.finish := rfl

theorem outcome_cons {r next : Reader} {c : Char} (read : r.read c = .ok next) (cs : List Char) :
    r.outcome (c :: cs) = outcome { next with pos := r.pos + c.utf8Size } cs := by
  rw [outcome, foldlM_cons_ok (step_eq r c read), outcome]

theorem outcome_comment (cs : List Char) :
    outcome ⟨pos, .comment, items, enclosing⟩ cs =
      outcome ⟨pos + String.utf8Len (cs.takeWhile (· != '\n')), .between, items, enclosing⟩
        (cs.dropWhile (· != '\n')) := by
  induction cs generalizing pos with
  | nil => rfl
  | cons c cs ih =>
    by_cases lineEnd : c = '\n'
    · subst lineEnd
      rfl
    · have read : read ⟨pos, .comment, items, enclosing⟩ c =
          .ok ⟨pos, .comment, items, enclosing⟩ := by
        simp [Reader.read, lineEnd]
      rw [outcome_cons read, ih]
      simp [lineEnd, Nat.add_assoc, Nat.add_comm c.utf8Size]

/-- A run ends with the first delimiter or the text. What it stands for is added, or stops the
reading. -/
theorem outcome_ofRun (start : Nat) (chars cs : List Char) :
    outcome ⟨pos, .run start chars, items, enclosing⟩ cs =
      let stop := pos + String.utf8Len (cs.takeWhile (!isDelimiter ·))
      match Datum.ofRun (chars.reverse ++ cs.takeWhile (!isDelimiter ·)) with
      | .ok d => outcome ⟨stop, .between, d :: items, enclosing⟩ (cs.dropWhile (!isDelimiter ·))
      | .error cause => fail cause start stop := by
  induction cs generalizing pos chars with
  | nil =>
    rw [List.takeWhile_nil, List.append_nil, outcome_nil, finish, endMode]
    dsimp only
    unfold addRun
    cases Datum.ofRun chars.reverse <;> rfl
  | cons c cs ih =>
    by_cases ends : isDelimiter c = true
    · simp only [List.takeWhile_cons, List.dropWhile_cons, ends, Bool.not_true, Bool.false_eq_true,
        if_false, List.append_nil]
      have same : Reader.read ⟨pos, .run start chars, items, enclosing⟩ c =
          (addRun ⟨pos, .run start chars, items, enclosing⟩ start chars).bind (·.start c) := by
        simp only [Reader.read, ends, if_true]
        rfl
      rw [outcome, List.foldlM_cons, step, same]
      unfold addRun
      cases Datum.ofRun chars.reverse <;> rfl
    · have continues : Reader.read ⟨pos, .run start chars, items, enclosing⟩ c =
          .ok ⟨pos, .run start (c :: chars), items, enclosing⟩ := by
        simp [Reader.read, ends]
      simp only [List.takeWhile_cons, List.dropWhile_cons, ends, Bool.not_false, if_true]
      rw [outcome_cons continues, ih (pos + c.utf8Size), String.utf8Len_cons, Nat.add_assoc,
        Nat.add_comm c.utf8Size, List.reverse_cons, List.append_assoc, List.singleton_append]

/-- From between two data, a whole token is read as what the run stands for. -/
theorem outcome_token {token behind : List Char} (nonempty : token ≠ [])
    (inside : ∀ c ∈ token, isDelimiter c = false)
    (ended : ∀ c, behind.head? = some c → isDelimiter c = true) :
    outcome ⟨pos, .between, items, enclosing⟩ (token ++ behind) =
      match Datum.ofRun token with
      | .ok d => outcome ⟨pos + String.utf8Len token, .between, d :: items, enclosing⟩ behind
      | .error cause => fail cause pos (pos + String.utf8Len token) := by
  obtain ⟨c, cs, rfl⟩ := List.exists_cons_of_ne_nil nonempty
  obtain ⟨first, others⟩ := List.forall_mem_cons.mp inside
  have begun : Reader.read ⟨pos, .between, items, enclosing⟩ c =
      .ok ⟨pos, .run pos [c], items, enclosing⟩ := start_of_continues first
  have passes : ∀ c ∈ cs, (!isDelimiter c) = true := fun c member => by rw [others c member]; rfl
  have taken : (cs ++ behind).takeWhile (!isDelimiter ·) = cs := by
    rw [List.takeWhile_append_of_pos passes]
    cases behind with
    | nil => simp
    | cons c' behind => simp [ended c' rfl]
  have left : (cs ++ behind).dropWhile (!isDelimiter ·) = behind := by
    rw [List.dropWhile_append_of_pos passes]
    cases behind with
    | nil => rfl
    | cons c' behind => simp [ended c' rfl]
  rw [List.cons_append, outcome_cons begun]
  dsimp only
  rw [outcome_ofRun, taken, left, String.utf8Len_cons, Nat.add_assoc, Nat.add_comm c.utf8Size]
  rfl

end Outcome

/-! ### Strings -/

def Closes (r : Reader) (cs : List Char) (length : Nat) : Prop :=
  ∃ item, r.outcome cs =
    outcome ⟨r.pos + String.utf8Len (cs.take length), .between, item :: r.items, r.enclosing⟩
      (cs.drop length)

theorem Closes.cons {pos : Nat} {mode next : Mode} {items : List Datum} {enclosing : List Opened}
    {c : Char} {cs : List Char} {length : Nat}
    (read : Reader.read ⟨pos, mode, items, enclosing⟩ c = .ok ⟨pos, next, items, enclosing⟩)
    (closes : Closes ⟨pos + c.utf8Size, next, items, enclosing⟩ cs length) :
    Closes ⟨pos, mode, items, enclosing⟩ (c :: cs) (length + 1) := by
  obtain ⟨item, same⟩ := closes
  refine ⟨item, ?_⟩
  rw [outcome_cons read, same]
  simp [Nat.add_assoc, Nat.add_comm]

section Strings

variable {pos start length : Nat} {chars cs : List Char} {items : List Datum}
  {enclosing : List Opened}

theorem closes_quoted (closed : Lexeme.quotedLength? cs = some length) :
    Closes ⟨pos, .quoted start chars false, items, enclosing⟩ cs length := by
  fun_induction Lexeme.quotedLength? cs generalizing pos chars length with
  | case1 => cases closed
  | case2 rest =>
    cases closed
    exact ⟨_, rfl⟩
  | case3 => cases closed
  | case4 c rest ih =>
    obtain ⟨length, inside, rfl⟩ := Option.map_eq_some_iff.mp closed
    exact .cons rfl (.cons rfl (ih inside))
  | case5 c rest quote newline caret ih =>
    obtain ⟨length, inside, rfl⟩ := Option.map_eq_some_iff.mp closed
    -- A caret would have a character behind it, as the string does not end there.
    have plain : c ≠ '^' := by
      rintro rfl
      cases rest with
      | nil => cases inside
      | cons next rest => exact caret next rest rfl rfl
    have reads : Reader.read ⟨pos, .quoted start chars false, items, enclosing⟩ c =
        .ok ⟨pos, .quoted start (c :: chars) false, items, enclosing⟩ := by
      simp only [Reader.read]
    exact .cons reads (ih inside)

theorem closes_braced {depth : Nat} (closed : Lexeme.bracedLength? depth cs = some length) :
    Closes ⟨pos, .braced start (depth + 1) chars false, items, enclosing⟩ cs length := by
  fun_induction Lexeme.bracedLength? depth cs generalizing pos chars length with
  | case1 => cases closed
  | case2 rest =>
    cases closed
    exact ⟨_, rfl⟩
  | case3 depth rest ih =>
    obtain ⟨length, inside, rfl⟩ := Option.map_eq_some_iff.mp closed
    exact .cons rfl (ih inside)
  | case4 depth rest ih =>
    obtain ⟨length, inside, rfl⟩ := Option.map_eq_some_iff.mp closed
    exact .cons rfl (ih inside)
  | case5 depth c rest ih =>
    obtain ⟨length, inside, rfl⟩ := Option.map_eq_some_iff.mp closed
    exact .cons rfl (.cons rfl (ih inside))
  | case6 depth c rest last inner brace caret ih =>
    obtain ⟨length, inside, rfl⟩ := Option.map_eq_some_iff.mp closed
    have closer : c ≠ '\x7d' := by
      rintro rfl
      cases depth with
      | zero => exact last rfl rfl
      | succ depth => exact inner depth rfl rfl
    have plain : c ≠ '^' := by
      rintro rfl
      cases rest with
      | nil => cases inside
      | cons next rest => exact caret next rest rfl rfl
    have reads : Reader.read ⟨pos, .braced start (depth + 1) chars false, items, enclosing⟩ c =
        .ok ⟨pos, .braced start (depth + 1) (c :: chars) false, items, enclosing⟩ := by
      simp only [Reader.read]
    exact .cons reads (ih inside)

end Strings

/-! ### Any lexeme -/

variable (pos : Nat) (items : List Datum) (enclosing : List Opened)

theorem outcome_ofString {c : Char} {cs : List Char} {mode : Mode} {found : Option Nat}
    (read : Reader.read ⟨pos, .between, items, enclosing⟩ c = .ok ⟨pos, mode, items, enclosing⟩)
    (closes : ∀ length, found = some length →
      Closes ⟨pos + c.utf8Size, mode, items, enclosing⟩ cs length)
    (sound : (Lexeme.ofString c cs found).1.Sound) : ∃ items',
      outcome ⟨pos, .between, items, enclosing⟩ (c :: cs) =
        outcome ⟨pos + String.utf8Len (Lexeme.ofString c cs found).1.chars, .between, items',
          enclosing⟩ (Lexeme.ofString c cs found).2 := by
  cases found with
  | none => exact sound.elim
  | some length =>
    obtain ⟨item, same⟩ := Closes.cons read (closes length rfl)
    exact ⟨item :: items, same⟩

/-- A sound lexeme that is no bracket changes neither what is open nor what is read after it. -/
theorem outcome_lexeme {c : Char} {cs : List Char} (sound : (Lexeme.split c cs).1.Sound)
    (other : (Lexeme.split c cs).1.bracket? pos = none) : ∃ items',
      outcome ⟨pos, .between, items, enclosing⟩ (c :: cs) =
        outcome ⟨pos + String.utf8Len (Lexeme.split c cs).1.chars, .between, items', enclosing⟩
          (Lexeme.split c cs).2 := by
  have blank {c : Char} (read : Reader.read ⟨pos, .between, items, enclosing⟩ c =
      .ok ⟨pos, .between, items, enclosing⟩) :
      outcome ⟨pos, .between, items, enclosing⟩ (c :: cs) =
        outcome ⟨pos + String.utf8Len [c], .between, items, enclosing⟩ cs := by
    rw [outcome_cons read, String.utf8Len_cons, String.utf8Len_nil, Nat.zero_add]
  unfold Lexeme.split at sound other ⊢
  split at sound
  · exact ⟨items, blank rfl⟩
  · exact ⟨items, blank rfl⟩
  · exact ⟨items, blank rfl⟩
  · exact ⟨items, blank rfl⟩
  · have reads : Reader.read ⟨pos, .between, items, enclosing⟩ ';' =
        .ok ⟨pos, .comment, items, enclosing⟩ := rfl
    refine ⟨items, (outcome_cons reads cs).trans ?_⟩
    rw [outcome_comment]
    simp [Lexeme.chars, Nat.add_assoc, Nat.add_comm]
  · cases other
  · cases other
  · cases other
  · cases other
  · exact sound.elim
  · exact outcome_ofString pos items enclosing rfl (fun _ => closes_quoted) sound
  · exact outcome_ofString pos items enclosing rfl (fun _ => closes_braced) sound
  · obtain ⟨d, read⟩ := sound
    have whole : Datum.ofRun ([c].reverse ++ cs.takeWhile (!isDelimiter ·)) = .ok d := read
    have continues : isDelimiter c = false := by simp_all [isDelimiter]
    have begun : Reader.read ⟨pos, .between, items, enclosing⟩ c =
        .ok ⟨pos, .run pos [c], items, enclosing⟩ := start_of_continues continues
    refine ⟨d :: items, (outcome_cons begun cs).trans ?_⟩
    rw [outcome_ofRun _ items enclosing, whole]
    simp [Lexeme.chars, Nat.add_assoc, Nat.add_comm]

end Reader

end BlockScript
