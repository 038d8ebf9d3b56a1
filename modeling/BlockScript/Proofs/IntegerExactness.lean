import BlockScript.Proofs.Blame
import BlockScript.Proofs.Lexemes
import BlockScript.Proofs.OperatorResults
import BlockScript.Proofs.PlainWords
import Mathlib.Data.Nat.Digits.Defs

/-!
# Integers are exact

An integer is never rounded, wrapped or replaced by something near it. A numeral of any length is
read as the number that it denotes, or is refused when 64 bits do not hold it. Arithmetic on two
integers yields the number that it comes to, or overflows when 64 bits do not hold it; only a
division that leaves a remainder gives a decimal.
-/

namespace BlockScript

def Fits (n : Int) : Prop := -2 ^ 63 ≤ n ∧ n < 2 ^ 63

theorem Fits.exists {n : Int} (fits : Fits n) : ∃ v : Int64, v.toInt = n :=
  ⟨.ofInt n, Int64.toInt_ofInt_of_le fits.1 fits.2⟩

theorem fits_iff {n : Int} :
    Int64.minValue.toInt ≤ n ∧ n ≤ Int64.maxValue.toInt ↔ Fits n := by
  have low : Int64.minValue.toInt = -2 ^ 63 := by decide
  have high : Int64.maxValue.toInt = 2 ^ 63 - 1 := by decide
  rw [low, high, Fits]
  omega

/-! ## Numerals -/

def Digits.number (ds : List Char) : Nat :=
  Nat.ofDigits 10 (ds.reverse.map fun c => c.toNat - '0'.toNat)

inductive Numeral : List Char → Int → Prop where
  | plain {ds : List Char} (some : ds ≠ []) (digits : ∀ c ∈ ds, Digits.isDigit c = true) :
      Numeral ds (Digits.number ds)
  | plus {ds : List Char} (some : ds ≠ []) (digits : ∀ c ∈ ds, Digits.isDigit c = true) :
      Numeral ('+' :: ds) (Digits.number ds)
  | minus {ds : List Char} (some : ds ≠ []) (digits : ∀ c ∈ ds, Digits.isDigit c = true) :
      Numeral ('-' :: ds) (-Digits.number ds)

theorem Digits.value_eq_number (ds : List Char) : Digits.value ds = Digits.number ds := by
  induction ds using List.reverseRecOn with
  | nil => rfl
  | append_singleton ds d ih =>
    rw [number, List.reverse_append, List.reverse_singleton, List.singleton_append, List.map_cons,
      Nat.ofDigits_cons, ← number, ← ih]
    simp [value, Nat.add_comm]

namespace Datum

variable {n : Int} {v : Int64} {token : List Char}

theorem fitInteger?_eq_some_iff : fitInteger? n = some v ↔ v.toInt = n := by
  constructor
  · intro fitted
    unfold fitInteger? at fitted
    split at fitted
    · next range =>
      cases fitted
      obtain ⟨low, high⟩ := fits_iff.mp range
      exact Int64.toInt_ofInt_of_le low high
    · cases fitted
  · rintro rfl
    exact fitInteger?_toInt v

theorem fitInteger?_eq_none_iff : fitInteger? n = none ↔ ¬ Fits n := by
  unfold fitInteger?
  by_cases fits : Fits n
  · rw [if_pos (fits_iff.mpr fits)]
    simp [fits]
  · rw [if_neg fun range => fits (fits_iff.mp range)]
    simp [fits]

theorem readInteger?_of_split {negative : Bool} {ds : List Char}
    (split : Decimal.splitSign token = (negative, ds)) (some : ds ≠ [])
    (digits : ∀ c ∈ ds, Digits.isDigit c = true) :
    readInteger? token =
      fitInteger? (if negative then -Digits.number ds else Digits.number ds) := by
  have proper : (ds.isEmpty || !ds.all Digits.isDigit) = false := by
    rw [List.isEmpty_eq_false_iff.mpr some, List.all_eq_true.mpr digits]
    rfl
  rw [readInteger?, split]
  dsimp only
  rw [proper, Digits.value_eq_number]
  rfl

theorem readInteger?_numeral (numeral : Numeral token n) :
    readInteger? token = fitInteger? n := by
  cases numeral with
  | plain some digits =>
    obtain ⟨d, ds, rfl⟩ := List.exists_cons_of_ne_nil some
    have unsigned := Decimal.splitSign_of_isDigit (digits d List.mem_cons_self) ds
    exact readInteger?_of_split unsigned some digits
  | plus some digits => exact readInteger?_of_split rfl some digits
  | minus some digits => exact readInteger?_of_split rfl some digits

theorem looksNumeric_numeral (numeral : Numeral token n) : looksNumeric token = true := by
  have first {ds : List Char} (some : ds ≠ []) (digits : ∀ c ∈ ds, Digits.isDigit c = true) :
      ∃ d rest, ds = d :: rest ∧ Digits.isDigit d = true := by
    obtain ⟨d, rest, rfl⟩ := List.exists_cons_of_ne_nil some
    exact ⟨d, rest, rfl, digits d List.mem_cons_self⟩
  cases numeral with
  | plain some digits =>
    obtain ⟨d, rest, rfl, digit⟩ := first some digits
    exact looksNumeric_of_isDigit digit rest
  | plus some digits =>
    obtain ⟨d, rest, rfl, digit⟩ := first some digits
    simp [looksNumeric, digit]
  | minus some digits =>
    obtain ⟨d, rest, rfl, digit⟩ := first some digits
    simp [looksNumeric, digit]

/-- No character of a numeral makes a decimal of it or ends a run. -/
theorem isDigit_or_sign (numeral : Numeral token n) :
    ∀ c ∈ token, Digits.isDigit c = true ∨ c = '+' ∨ c = '-' := by
  cases numeral with
  | plain some digits => exact fun c member => .inl (digits c member)
  | plus some digits =>
    rw [List.forall_mem_cons]
    exact ⟨.inr (.inl rfl), fun c member => .inl (digits c member)⟩
  | minus some digits =>
    rw [List.forall_mem_cons]
    exact ⟨.inr (.inr rfl), fun c member => .inl (digits c member)⟩

theorem ofRun_numeral (numeral : Numeral token n) (fits : v.toInt = n) :
    ofRun token = .ok (.integer v) := by
  rw [ofRun, if_pos (looksNumeric_numeral numeral), readNumber?, readInteger?_numeral numeral,
    fitInteger?_eq_some_iff.mpr fits]

theorem ofRun_numeral_error (numeral : Numeral token n) (outside : ¬ Fits n) :
    ofRun token = .error (.invalidNumber (String.ofList token)) := by
  have noMark : (token.any fun c => c == '.' || c == 'e' || c == 'E') = false := by
    rw [List.any_eq_false]
    intro c member
    rcases isDigit_or_sign numeral c member with digit | rfl | rfl
    · intro mark
      simp only [Bool.or_eq_true, beq_iff_eq] at mark
      rcases mark with (rfl | rfl) | rfl
      · exact absurd digit (by decide)
      · exact absurd digit (by decide)
      · exact absurd digit (by decide)
    · decide
    · decide
  rw [ofRun, if_pos (looksNumeric_numeral numeral), readNumber?, readInteger?_numeral numeral,
    fitInteger?_eq_none_iff.mpr outside]
  simp [noMark]

end Datum

/-! ## Reading a token -/

theorem Datum.read_token {source : String} {p : Piece source.toList} {r : Reader}
    (token : p.IsToken) (reached : p.before.foldlM Reader.step {} = .ok r)
    (between : r.mode = .between) :
    Datum.read source =
      match Datum.ofRun p.chars with
      | .ok d => Reader.outcome ⟨p.span.stop, .between, d :: r.items, r.enclosing⟩ p.behind
      | .error cause => Reader.fail cause p.span.start p.span.stop := by
  have pos := (Reader.hasRead_of_foldlM reached).pos
  obtain ⟨_, mode, items, enclosing⟩ := r
  obtain rfl : mode = .between := between
  obtain rfl := pos
  have text : source.toList = p.before ++ (p.chars ++ p.behind) := by
    rw [← List.append_assoc]
    exact p.whole.symm
  calc Datum.read source
    _ = Reader.outcome {} (p.before ++ (p.chars ++ p.behind)) := congrArg (Reader.outcome {}) text
    _ = Reader.outcome ⟨String.utf8Len p.before, .between, items, enclosing⟩
          (p.chars ++ p.behind) := by
        rw [Reader.outcome, Reader.foldlM_append_ok reached]
        rfl
    _ = _ := Reader.outcome_token _ _ _ token.nonempty token.inside token.behind

theorem Numeral.nonempty {token : List Char} {n : Int} (numeral : Numeral token n) :
    token ≠ [] := by
  cases numeral with
  | plain some => exact some
  | plus => exact List.cons_ne_nil _ _
  | minus => exact List.cons_ne_nil _ _

theorem Numeral.continues {token : List Char} {n : Int} (numeral : Numeral token n) :
    ∀ c ∈ token, Reader.isDelimiter c = false := by
  intro c member
  have numeric : isNumeric c = true := by
    rcases Datum.isDigit_or_sign numeral c member with digit | rfl | rfl
    · exact isNumeric_of_isDigit digit
    · decide
    · decide
  exact (ne_of_isNumeric numeric).1

def Piece.all (source : List Char) : Piece source := ⟨[], source, [], List.append_nil _⟩

theorem Numeral.isToken {source : List Char} {n : Int} (numeral : Numeral source n) :
    (Piece.all source).IsToken where
  nonempty := numeral.nonempty
  inside := numeral.continues
  before := nofun
  behind := nofun

section Alone

variable {source : String} {n : Int}

theorem Datum.read_numeral {v : Int64} (numeral : Numeral source.toList v.toInt) :
    Datum.read source = .ok [.integer v] := by
  have read : Datum.read source = _ :=
    Datum.read_token (p := Piece.all source.toList) numeral.isToken rfl rfl
  have run : Datum.ofRun (Piece.all source.toList).chars = .ok (.integer v) :=
    Datum.ofRun_numeral numeral rfl
  rw [read, run]
  rfl

theorem Datum.read_numeral_error (numeral : Numeral source.toList n) (outside : ¬ Fits n) :
    Datum.read source = .error ⟨.invalidNumber source, .ofOffsets 0 source.utf8ByteSize⟩ := by
  have read : Datum.read source = _ :=
    Datum.read_token (p := Piece.all source.toList) numeral.isToken rfl rfl
  have run : Datum.ofRun (Piece.all source.toList).chars = .error (.invalidNumber source) :=
    (Datum.ofRun_numeral_error numeral outside).trans (by rw [String.ofList_toList])
  have stop : (Piece.all source.toList).span.stop = source.utf8ByteSize :=
    (Nat.zero_add _).trans (String.utf8Len_toList source)
  rw [read, run, stop]
  rfl

theorem loadSource_integer {v : Int64} (s : State) (read : Datum.read source = .ok [.integer v]) :
    ∃ block t, Interpreter.loadSource source s = .ok (block, t) ∧
      t.heap.tail block = [.integer v] :=
  ⟨_, _, loadSource_of_read s read, endsWith_loadBlock s.heap (d := .integer v) rfl⟩

end Alone

/-! ## Arithmetic -/

namespace Operators

/-- The operators that are exact on integers whenever the result fits, and what they compute. -/
def exactOperators : List (Operator × (Int → Int → Int)) :=
  [(.add, (· + ·)), (.subtract, (· - ·)), (.multiply, (· * ·))]

variable {ev : Evaluator} {s : State} {a b v : Int64} {n : Int} {op : Operator}
  {f : Int → Int → Int}

theorem ofInt_eq_ok_iff : ofInt n = .ok (.integer v) ↔ v.toInt = n := by
  rw [← Datum.fitInteger?_eq_some_iff, ofInt]
  cases Datum.fitInteger? n <;> simp

theorem ofInt_eq_overflow_iff : ofInt n = .error .overflow ↔ ¬ Fits n := by
  rw [← Datum.fitInteger?_eq_none_iff, ofInt]
  cases Datum.fitInteger? n <;> simp

theorem apply_exact (exact : (op, f) ∈ exactOperators) (h : Heap) (a b : Int64) :
    apply h (.integer a) (.integer b) op = ofInt (f a.toInt b.toInt) := by
  simp only [exactOperators, List.mem_cons, List.not_mem_nil, or_false, Prod.mk.injEq] at exact
  rcases exact with ⟨rfl, rfl⟩ | ⟨rfl, rfl⟩ | ⟨rfl, rfl⟩
  · rfl
  · rfl
  · rfl

theorem apply_divide (h : Heap) (a b : Int64) :
    apply h (.integer a) (.integer b) .divide = divideIntegers a b := rfl

inductive Divided (a b : Int64) : Except Cause Value → Prop where
  | zero (isZero : b.toInt = 0) : Divided a b (.error .zeroDivide)
  | quotient {v : Int64} (nonzero : b.toInt ≠ 0) (exact : v.toInt * b.toInt = a.toInt) :
      Divided a b (.ok (.integer v))
  | overflow {q : Int} (nonzero : b.toInt ≠ 0) (exact : q * b.toInt = a.toInt)
      (outside : ¬ Fits q) : Divided a b (.error .overflow)
  | decimal (nonzero : b.toInt ≠ 0) (rest : ¬ b.toInt ∣ a.toInt) :
      Divided a b (.ok (.decimal (Decimal.nearest a / Decimal.nearest b)))

/-- A division without a remainder gives the quotient, if it fits. -/
theorem divideIntegers_exact {q : Int} (nonzero : b.toInt ≠ 0) (exact : q * b.toInt = a.toInt) :
    divideIntegers a b = ofInt q := by
  have whole : b.toInt ∣ a.toInt := Dvd.intro_left q exact
  have quotient : a.toInt.tdiv b.toInt = q := Int.tdiv_eq_of_eq_mul_left nonzero exact.symm
  rw [divideIntegers, if_neg nonzero, if_pos (Int.tmod_eq_zero_of_dvd whole), quotient]

theorem divideIntegers_rest (nonzero : b.toInt ≠ 0) (rest : ¬ b.toInt ∣ a.toInt) :
    divideIntegers a b = .ok (.decimal (Decimal.nearest a / Decimal.nearest b)) := by
  rw [divideIntegers, if_neg nonzero, if_neg fun none => rest (Int.dvd_of_tmod_eq_zero none)]

theorem divided_divideIntegers (a b : Int64) : Divided a b (divideIntegers a b) := by
  by_cases isZero : b.toInt = 0
  · rw [divideIntegers, if_pos isZero]
    exact .zero isZero
  · by_cases whole : b.toInt ∣ a.toInt
    · obtain ⟨q, product⟩ := whole
      have exact : q * b.toInt = a.toInt := by rw [product, Int.mul_comm]
      rw [divideIntegers_exact isZero exact]
      by_cases fits : Fits q
      · obtain ⟨v, rfl⟩ := fits.exists
        rw [ofInt_eq_ok_iff.mpr rfl]
        exact .quotient isZero exact
      · rw [ofInt_eq_overflow_iff.mpr fits]
        exact .overflow isZero exact fits
    · rw [divideIntegers_rest isZero whole]
      exact .decimal isZero whole

theorem Divided.eq {r : Except Cause Value} (divided : Divided a b r) : divideIntegers a b = r := by
  cases divided with
  | zero isZero => rw [divideIntegers, if_pos isZero]
  | quotient nonzero exact => rw [divideIntegers_exact nonzero exact, ofInt_eq_ok_iff]
  | overflow nonzero exact outside =>
    rw [divideIntegers_exact nonzero exact, ofInt_eq_overflow_iff]
    exact outside
  | decimal nonzero rest => exact divideIntegers_rest nonzero rest

theorem divideIntegers_eq_iff {r : Except Cause Value} :
    divideIntegers a b = r ↔ Divided a b r :=
  ⟨fun same => same ▸ divided_divideIntegers a b, Divided.eq⟩

end Operators

/-! ## From the text to the result -/

/-- Integers are exact where they are read, alone or in a longer text, and where they are computed
with. -/
structure ExactIntegers (ev : Evaluator) (s : State) : Prop where
  numeral_loaded (source : String) (n : Int) : Numeral source.toList n → Fits n →
    ∃ v : Int64, v.toInt = n ∧ ∃ block t,
      Interpreter.loadSource source s = .ok (block, t) ∧ t.heap.tail block = [.integer v]
  numeral_refused (source : String) (n : Int) : Numeral source.toList n → ¬ Fits n →
    Interpreter.loadSource source s =
      .error ⟨.invalidNumber source, .ofOffsets 0 source.utf8ByteSize⟩
  token_read (source : String) (p : Piece source.toList) (r : Reader) (n : Int) : p.IsToken →
    p.before.foldlM Reader.step {} = .ok r → r.mode = .between → Numeral p.chars n → Fits n →
      ∃ v : Int64, v.toInt = n ∧ Datum.read source =
        Reader.outcome ⟨p.span.stop, .between, .integer v :: r.items, r.enclosing⟩ p.behind
  token_refused (source : String) (p : Piece source.toList) (r : Reader) (n : Int) : p.IsToken →
    p.before.foldlM Reader.step {} = .ok r → r.mode = .between → Numeral p.chars n → ¬ Fits n →
      Datum.read source =
        .error ⟨.invalidNumber (String.ofList p.chars), .ofOffsets p.span.start p.span.stop⟩
  exact_yields (op : Operator) (f : Int → Int → Int) (a b : Int64) :
    (op, f) ∈ Operators.exactOperators → Fits (f a.toInt b.toInt) →
      ∃ v : Int64, v.toInt = f a.toInt b.toInt ∧
        Operators.Yields ev s op (.integer a) (.integer b) (.integer v)
  exact_overflows (op : Operator) (f : Int → Int → Int) (a b : Int64) :
    (op, f) ∈ Operators.exactOperators → ¬ Fits (f a.toInt b.toInt) →
      Operators.Raises ev s op (.integer a) (.integer b) .overflow
  divide_by_zero_iff (a b : Int64) :
    Operators.Raises ev s .divide (.integer a) (.integer b) .zeroDivide ↔ b.toInt = 0
  divide_yields_integer_iff (a b v : Int64) :
    Operators.Yields ev s .divide (.integer a) (.integer b) (.integer v) ↔
      b.toInt ≠ 0 ∧ v.toInt * b.toInt = a.toInt
  divide_overflows_iff (a b : Int64) :
    Operators.Raises ev s .divide (.integer a) (.integer b) .overflow ↔
      b.toInt ≠ 0 ∧ ∃ q, q * b.toInt = a.toInt ∧ ¬ Fits q
  divide_yields_decimal_iff (a b : Int64) (x : Float) :
    Operators.Yields ev s .divide (.integer a) (.integer b) (.decimal x) ↔
      b.toInt ≠ 0 ∧ ¬ b.toInt ∣ a.toInt ∧ x = Decimal.nearest a / Decimal.nearest b

theorem integers_exact (ev : Evaluator) (s : State) : ExactIntegers ev s where
  numeral_loaded source n numeral fits := by
    obtain ⟨v, rfl⟩ := fits.exists
    exact ⟨v, rfl, loadSource_integer s (Datum.read_numeral numeral)⟩
  numeral_refused source n numeral outside := by
    rw [Interpreter.loadSource, Datum.read_numeral_error numeral outside]
  token_read source p r n token reached between numeral fits := by
    obtain ⟨v, rfl⟩ := fits.exists
    exact ⟨v, rfl, by rw [Datum.read_token token reached between, Datum.ofRun_numeral numeral rfl]⟩
  token_refused source p r n token reached between numeral outside := by
    rw [Datum.read_token token reached between, Datum.ofRun_numeral_error numeral outside]
    rfl
  exact_yields op f a b exact fits := by
    obtain ⟨v, same⟩ := fits.exists
    refine ⟨v, same, Operators.yields_iff.mpr ?_⟩
    rw [Operators.apply_exact exact, Operators.ofInt_eq_ok_iff]
    exact same
  exact_overflows op f a b exact outside := by
    rw [Operators.raises_iff, Operators.apply_exact exact, Operators.ofInt_eq_overflow_iff]
    exact outside
  divide_by_zero_iff a b := by
    rw [Operators.raises_iff, Operators.apply_divide, Operators.divideIntegers_eq_iff]
    constructor
    · intro divided
      cases divided with
      | zero isZero => exact isZero
    · exact .zero
  divide_yields_integer_iff a b v := by
    rw [Operators.yields_iff, Operators.apply_divide, Operators.divideIntegers_eq_iff]
    constructor
    · intro divided
      cases divided with
      | quotient nonzero exact => exact ⟨nonzero, exact⟩
    · rintro ⟨nonzero, exact⟩
      exact .quotient nonzero exact
  divide_overflows_iff a b := by
    rw [Operators.raises_iff, Operators.apply_divide, Operators.divideIntegers_eq_iff]
    constructor
    · intro divided
      cases divided with
      | overflow nonzero exact outside => exact ⟨nonzero, _, exact, outside⟩
    · rintro ⟨nonzero, q, exact, outside⟩
      exact .overflow nonzero exact outside
  divide_yields_decimal_iff a b x := by
    rw [Operators.yields_iff, Operators.apply_divide, Operators.divideIntegers_eq_iff]
    constructor
    · intro divided
      cases divided with
      | decimal nonzero rest => exact ⟨nonzero, rest, rfl⟩
    · rintro ⟨nonzero, rest, rfl⟩
      exact .decimal nonzero rest

end BlockScript
