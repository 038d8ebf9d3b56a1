import BlockScript.Datum.Reader

/-!
# Numbers are read back

The text of an integer is read as that integer, and the text of a decimal is read as a decimal when
it is read back at all. Both start like a number and hold no character that ends a run.
-/

namespace BlockScript

def isNumeric (c : Char) : Bool :=
  Digits.isDigit c || c ∈ ['+', '-', '.', 'e', 'E']

theorem isNumeric_of_isDigit {c : Char} (h : Digits.isDigit c = true) : isNumeric c = true := by
  rw [isNumeric, h, Bool.true_or]

/-- No character of a number ends a run or marks a word or path. -/
theorem ne_of_isNumeric {c : Char} (h : isNumeric c = true) :
    Reader.isDelimiter c = false ∧ c ≠ ':' ∧ c ≠ '\'' ∧ c ≠ '/' := by
  have other (d : Char) (hd : isNumeric d = false) : c ≠ d := by
    rintro rfl
    rw [h] at hd
    cases hd
  refine ⟨?_, other _ (by decide), other _ (by decide), other _ (by decide)⟩
  unfold Reader.isDelimiter
  rw [decide_eq_false_iff_not]
  intro member
  have marks : [' ', '\t', '\n', '\r', '[', ']', '(', ')', '"', '\x7b', '\x7d', ';'].all
      (isNumeric · == false) = true := by decide
  exact other c (beq_iff_eq.mp (List.all_eq_true.mp marks c member)) rfl

/-! ## Integers -/

namespace Digits

theorem digits_ne_nil (n : Nat) : digits n ≠ [] := by
  rw [digits]
  split
  · exact List.cons_ne_nil _ _
  · exact List.append_ne_nil_of_right_ne_nil _ (List.cons_ne_nil _ _)

theorem toList_intText (n : Int) :
    (intText n).toList = (if n < 0 then ['-'] else []) ++ digits n.natAbs := by
  unfold intText text
  split <;> simp

end Digits

namespace Decimal

theorem splitSign_of_isDigit {c : Char} (h : Digits.isDigit c = true) (cs : List Char) :
    splitSign (c :: cs) = (false, c :: cs) := by
  unfold splitSign
  split
  · next same => cases same; cases h
  · next same => cases same; cases h
  · rfl

end Decimal

namespace Datum

theorem fitInteger?_toInt (n : Int64) : fitInteger? n.toInt = some n := by
  rw [fitInteger?, if_pos ⟨n.minValue_le_toInt, n.toInt_le⟩, Int64.ofInt_toInt]

theorem looksNumeric_of_isDigit {c : Char} (h : Digits.isDigit c = true) (cs : List Char) :
    looksNumeric (c :: cs) = true := by
  simp only [looksNumeric, h, Bool.true_or]

theorem looksNumeric_intText (n : Int) : looksNumeric (Digits.intText n).toList = true := by
  rw [Digits.toList_intText]
  obtain ⟨d, ds, digits⟩ := List.exists_cons_of_ne_nil (Digits.digits_ne_nil n.natAbs)
  have digit : Digits.isDigit d = true :=
    Digits.isDigit_of_mem_digits (digits ▸ List.mem_cons_self)
  rw [digits]
  split
  · simp [looksNumeric, digit]
  · exact looksNumeric_of_isDigit digit ds

theorem isNumeric_of_mem_intText {n : Int} {c : Char} (h : c ∈ (Digits.intText n).toList) :
    isNumeric c = true := by
  rw [Digits.toList_intText, List.mem_append] at h
  rcases h with sign | digit
  · split at sign
    · rw [List.mem_singleton.mp sign]
      decide
    · cases sign
  · exact isNumeric_of_isDigit (Digits.isDigit_of_mem_digits digit)

theorem readInteger?_intText (n : Int64) :
    readInteger? (Digits.intText n.toInt).toList = some n := by
  have all : (Digits.digits n.toInt.natAbs).all Digits.isDigit = true :=
    List.all_eq_true.mpr fun _ => Digits.isDigit_of_mem_digits
  have some_digit : (Digits.digits n.toInt.natAbs).isEmpty = false := by
    rw [List.isEmpty_eq_false_iff]
    exact Digits.digits_ne_nil _
  rw [Digits.toList_intText]
  by_cases negative : n.toInt < 0
  · have value : -((n.toInt.natAbs : Nat) : Int) = n.toInt := by omega
    rw [if_pos negative]
    simp only [readInteger?, Decimal.splitSign, List.cons_append, List.nil_append, some_digit, all,
      Digits.value_digits, if_true, value]
    simp [fitInteger?_toInt]
  · have value : ((n.toInt.natAbs : Nat) : Int) = n.toInt := by omega
    obtain ⟨d, ds, digits⟩ := List.exists_cons_of_ne_nil (Digits.digits_ne_nil n.toInt.natAbs)
    have digit : Digits.isDigit d = true :=
      Digits.isDigit_of_mem_digits (digits ▸ List.mem_cons_self)
    rw [if_neg negative, List.nil_append]
    unfold readInteger?
    rw [digits, Decimal.splitSign_of_isDigit digit, ← digits]
    simp [some_digit, all, Digits.value_digits, value, fitInteger?_toInt]

theorem ofRun_intText (n : Int64) : ofRun (Digits.intText n.toInt).toList = .ok (.integer n) := by
  rw [ofRun, if_pos (looksNumeric_intText n.toInt), readNumber?, readInteger?_intText]

end Datum

/-! ## Decimals -/

namespace Decimal

theorem splitSign_spec (cs : List Char) :
    ∃ sign, cs = sign ++ (splitSign cs).2 ∧ (sign = [] ∨ sign = ['-'] ∨ sign = ['+']) := by
  unfold splitSign
  split
  · exact ⟨['-'], rfl, .inr (.inl rfl)⟩
  · exact ⟨['+'], rfl, .inr (.inr rfl)⟩
  · exact ⟨[], rfl, .inl rfl⟩

/-- Only a sign is taken off, so any other character stays. -/
theorem mem_splitSign {c : Char} {cs : List Char} (h : c ∈ cs) (minus : c ≠ '-') (plus : c ≠ '+') :
    c ∈ (splitSign cs).2 := by
  obtain ⟨sign, same, shape⟩ := splitSign_spec cs
  rw [same, List.mem_append] at h
  refine h.resolve_left fun member => ?_
  rcases shape with rfl | rfl | rfl
  · cases member
  · exact minus (List.mem_singleton.mp member)
  · exact plus (List.mem_singleton.mp member)

theorem isNumeric_of_mem_sign {c : Char} {cs : List Char}
    (rest : ∀ c ∈ (splitSign cs).2, isNumeric c = true) (h : c ∈ cs) : isNumeric c = true := by
  obtain ⟨sign, same, shape⟩ := splitSign_spec cs
  rw [same, List.mem_append] at h
  rcases h with member | member
  · rcases shape with rfl | rfl | rfl
    · cases member
    · rw [List.mem_singleton.mp member]; decide
    · rw [List.mem_singleton.mp member]; decide
  · exact rest c member

theorem isNumeric_of_readExponent? {cs : List Char} {e : Int} (read : readExponent? cs = some e) :
    ∀ c ∈ cs, isNumeric c = true := by
  unfold readExponent? at read
  dsimp only at read
  split at read
  · cases read
  · next digits =>
    simp only [Bool.or_eq_true, Bool.not_eq_true', not_or, Bool.not_eq_false,
      List.all_eq_true] at digits
    exact fun c => isNumeric_of_mem_sign fun c member => isNumeric_of_isDigit (digits.2 c member)

theorem isDigit_of_mem_takeWhile {c : Char} {cs : List Char}
    (h : c ∈ cs.takeWhile Digits.isDigit) : Digits.isDigit c = true :=
  List.all_eq_true.mp List.all_takeWhile c h

theorem isNumeric_of_exponentPart {cs : List Char} {l : Literal} {literal : Int → Literal}
    (read : (match cs with
      | [] => some (literal 0)
      | mark :: rest =>
        if mark == 'e' || mark == 'E' then (readExponent? rest).map literal else none) = some l) :
    ∀ c ∈ cs, isNumeric c = true := by
  intro c member
  split at read
  · cases member
  · next mark rest =>
    split at read
    · next isMark =>
      obtain ⟨e, read, -⟩ := Option.map_eq_some_iff.mp read
      rcases List.mem_cons.mp member with rfl | member
      · rcases Bool.or_eq_true_iff.mp isMark with isMark | isMark
        · rw [beq_iff_eq.mp isMark]; decide
        · rw [beq_iff_eq.mp isMark]; decide
      · exact isNumeric_of_readExponent? read c member
    · cases read

theorem splitFraction_spec (cs : List Char) :
    ∃ point, cs = point ++ (splitFraction cs).2 ∧
      (point = [] ∧ (splitFraction cs).1 = [] ∨ point = '.' :: (splitFraction cs).1) ∧
      ∀ c ∈ (splitFraction cs).1, Digits.isDigit c = true := by
  unfold splitFraction
  split
  · next rest =>
    refine ⟨'.' :: rest.takeWhile Digits.isDigit, ?_, .inr rfl, fun c => isDigit_of_mem_takeWhile⟩
    rw [List.cons_append, List.takeWhile_append_dropWhile]
  · exact ⟨[], rfl, .inl ⟨rfl, rfl⟩, fun c member => by cases member⟩

/-- A literal behind its sign: digits, a point with digits behind it or neither, an exponent or
none. At least one digit stands before the exponent. -/
structure LiteralText (body whole fraction exponent : List Char) : Prop where
  parts : body = whole ++ (fraction ++ exponent)
  wholeDigits : ∀ c ∈ whole, Digits.isDigit c = true
  fractionDigits : fraction = [] ∨ ∃ ds, fraction = '.' :: ds ∧ ∀ c ∈ ds, Digits.isDigit c = true
  leading : whole = [] → ∃ d ds, fraction = '.' :: d :: ds ∧ Digits.isDigit d = true
  exponentChars : ∀ c ∈ exponent, isNumeric c = true

theorem literalText_of_read? {cs : List Char} {l : Literal} (read : Literal.read? cs = some l) :
    ∃ whole fraction exponent, LiteralText (splitSign cs).2 whole fraction exponent := by
  unfold Literal.read? at read
  dsimp only at read
  generalize (splitSign cs).2 = body at read ⊢
  obtain ⟨point, rest, shape, digits⟩ := splitFraction_spec (body.dropWhile Digits.isDigit)
  split at read
  · cases read
  next some_digit =>
  simp only [Bool.and_eq_true, List.isEmpty_iff, not_and] at some_digit
  refine ⟨body.takeWhile Digits.isDigit, point, _,
    { parts := ?parts
      wholeDigits := fun c => isDigit_of_mem_takeWhile
      fractionDigits := ?fraction
      leading := fun empty => ?leading
      exponentChars := isNumeric_of_exponentPart read }⟩
  case parts => rw [← rest, List.takeWhile_append_dropWhile]
  case fraction =>
    rcases shape with ⟨empty, -⟩ | shape
    · exact .inl empty
    · exact .inr ⟨_, shape, digits⟩
  case leading =>
    obtain ⟨d, ds, same⟩ := List.exists_cons_of_ne_nil (some_digit empty)
    rcases shape with ⟨-, none⟩ | shape
    · exact absurd none (some_digit empty)
    · exact ⟨d, ds, by rw [shape, same], digits d (same ▸ List.mem_cons_self)⟩

theorem isNumeric_of_read? {cs : List Char} {l : Literal} (read : Literal.read? cs = some l) :
    ∀ c ∈ cs, isNumeric c = true := by
  obtain ⟨whole, fraction, exponent, text⟩ := literalText_of_read? read
  refine fun c => isNumeric_of_mem_sign fun c member => ?_
  rw [text.parts, List.mem_append, List.mem_append] at member
  rcases member with member | member | member
  · exact isNumeric_of_isDigit (text.wholeDigits c member)
  · rcases text.fractionDigits with rfl | ⟨ds, rfl, digits⟩
    · cases member
    · rcases List.mem_cons.mp member with rfl | member
      · decide
      · exact isNumeric_of_isDigit (digits c member)
  · exact text.exponentChars c member

theorem looksNumeric_of_read? {cs : List Char} {l : Literal} (read : Literal.read? cs = some l) :
    Datum.looksNumeric cs = true := by
  obtain ⟨whole, fraction, exponent, text⟩ := literalText_of_read? read
  obtain ⟨sign, same, signs⟩ := splitSign_spec cs
  rw [same, text.parts]
  cases whole with
  | cons d ds =>
    have digit := text.wholeDigits d List.mem_cons_self
    rcases signs with rfl | rfl | rfl <;> simp [Datum.looksNumeric, digit]
  | nil =>
    obtain ⟨d, ds, rfl, digit⟩ := text.leading rfl
    rcases signs with rfl | rfl | rfl <;> simp [Datum.looksNumeric, digit]

/-! Two decimals are equal when they are the same number, which no NaN is. -/

open Float.Model (UnpackedFloat)

inductive SameNumber : UnpackedFloat → UnpackedFloat → Prop where
  | infinity (sign : UnpackedFloat.Sign) : SameNumber (.infinity sign) (.infinity sign)
  | zero (sign sign' : UnpackedFloat.Sign) : SameNumber (.zero sign) (.zero sign')
  | finite (sign : UnpackedFloat.Sign) (mantissa : Nat) (exponent : Int) (pos : 0 < mantissa) :
      SameNumber (.finite sign mantissa exponent pos) (.finite sign mantissa exponent pos)

namespace SameNumber

variable {u v w : UnpackedFloat}

theorem of_compare (compared : u.compare v = some .eq) : SameNumber u v := by
  have finite {m m' : Nat} {e e' : Int} (pos : 0 < m) (pos' : 0 < m') (sign : UnpackedFloat.Sign)
      (same : (compare e e').then (compare m m') = .eq) :
      SameNumber (.finite sign m e pos) (.finite sign m' e' pos') := by
    obtain ⟨exponents, mantissas⟩ := Ordering.then_eq_eq.mp same
    obtain rfl := Int.compare_eq_eq.mp exponents
    obtain rfl := Nat.compare_eq_eq.mp mantissas
    exact .finite sign m e pos
  cases u with
  | notANumber => cases compared
  | infinity s =>
    cases v with
    | infinity s' => cases s <;> cases s' <;> first | exact .infinity _ | cases compared
    | _ => cases s <;> cases compared
  | zero s =>
    cases v with
    | zero s' => exact .zero s s'
    | infinity s' => cases s' <;> cases compared
    | notANumber => cases compared
    | finite s' m' e' pos' => cases s' <;> cases compared
  | finite s m e pos =>
    cases v with
    | notANumber => cases compared
    | infinity s' => cases s' <;> cases compared
    | zero s' => cases s <;> cases compared
    | finite s' m' e' pos' =>
      cases s <;> cases s'
      case positive.positive => exact finite pos pos' .positive (Option.some.inj compared)
      case negative.negative =>
        exact finite pos pos' .negative (Ordering.swap_eq_eq.mp (Option.some.inj compared))
      all_goals cases compared

theorem compare_eq (same : SameNumber u v) : u.compare v = some .eq := by
  cases same with
  | infinity sign => cases sign <;> rfl
  | zero sign sign' => rfl
  | finite sign m e pos =>
    have magnitude : (compare e e).then (compare m m) = .eq := by simp
    cases sign with
    | positive => exact congrArg some magnitude
    | negative => exact congrArg (some ∘ Ordering.swap) magnitude

theorem of_not_isNaN (number : u.isNaN = false) : SameNumber u u := by
  cases u with
  | infinity sign => exact .infinity sign
  | notANumber => cases number
  | zero sign => exact .zero sign sign
  | finite sign m e pos => exact .finite sign m e pos

theorem symm (same : SameNumber u v) : SameNumber v u := by
  cases same with
  | infinity sign => exact .infinity sign
  | zero sign sign' => exact .zero sign' sign
  | finite sign m e pos => exact .finite sign m e pos

theorem trans (first : SameNumber u v) (second : SameNumber v w) : SameNumber u w := by
  cases first with
  | infinity sign => exact second
  | finite sign m e pos => exact second
  | zero sign sign' =>
    cases second with
    | zero _ sign'' => exact .zero sign sign''

end SameNumber

variable {x y z : Float}

theorem beq_iff : (x == y) = true ↔ SameNumber x.toModel.unpack y.toModel.unpack := by
  change (x.toModel.unpack.compare y.toModel.unpack == some .eq) = true ↔ _
  rw [beq_iff_eq]
  exact ⟨.of_compare, SameNumber.compare_eq⟩

theorem beq_self (number : x.isNaN = false) : (x == x) = true := beq_iff.mpr (.of_not_isNaN number)

theorem beq_symm (same : (x == y) = true) : (y == x) = true := beq_iff.mpr (beq_iff.mp same).symm

theorem beq_trans (first : (x == y) = true) (second : (y == z) = true) : (x == z) = true :=
  beq_iff.mpr ((beq_iff.mp first).trans (beq_iff.mp second))

/-! The text of a finite decimal has a point or an exponent mark, so it is not read as an
integer. -/

theorem point_mem_positional (digits : List Char) (point : Int) :
    '.' ∈ positional digits point := by
  unfold positional
  split
  · simp
  · dsimp only
    split <;> simp

theorem mark_mem_magnitudeText (bits : UInt64) :
    '.' ∈ magnitudeText bits ∨ 'e' ∈ magnitudeText bits := by
  unfold magnitudeText
  dsimp only
  split
  · simp
  · split
    · exact .inl (point_mem_positional _ _)
    · simp [exponential]

theorem not_special_of_isFinite {x : Float} (finite : x.isFinite = true) :
    x.isNaN = false ∧ x.isInf = false := by
  change x.toModel.unpack.isFinite = true at finite
  change x.toModel.unpack.isNaN = false ∧ x.toModel.unpack.isInf = false
  generalize x.toModel.unpack = u at finite ⊢
  cases u with
  | infinity => cases finite
  | notANumber => cases finite
  | zero => exact ⟨rfl, rfl⟩
  | finite => exact ⟨rfl, rfl⟩

theorem beq_self_of_isFinite {x : Float} (finite : x.isFinite = true) : (x == x) = true :=
  beq_self (not_special_of_isFinite finite).1

theorem mark_mem_text {x : Float} (finite : x.isFinite = true) :
    '.' ∈ (text x).toList ∨ 'e' ∈ (text x).toList := by
  obtain ⟨nan, inf⟩ := not_special_of_isFinite finite
  unfold text
  rw [nan, inf]
  rcases mark_mem_magnitudeText x.toBits with mark | mark <;> simp [mark]

theorem isFinite_of_read? {cs : List Char} {x : Float} (read : read? cs = some x) :
    x.isFinite = true := by
  obtain ⟨literal, -, read⟩ := Option.bind_eq_some_iff.mp read
  dsimp only at read
  split at read
  · cases read; assumption
  · cases read

theorem literal_of_read? {cs : List Char} {x : Float} (read : read? cs = some x) :
    ∃ l, Literal.read? cs = some l := by
  obtain ⟨literal, read, -⟩ := Option.bind_eq_some_iff.mp read
  exact ⟨literal, read⟩

end Decimal

namespace Datum

theorem readInteger?_eq_none {cs : List Char} (mark : '.' ∈ cs ∨ 'e' ∈ cs) :
    readInteger? cs = none := by
  have other : ∃ c ∈ (Decimal.splitSign cs).2, Digits.isDigit c = false := by
    rcases mark with mark | mark
    · exact ⟨'.', Decimal.mem_splitSign mark (by decide) (by decide), by decide⟩
    · exact ⟨'e', Decimal.mem_splitSign mark (by decide) (by decide), by decide⟩
  obtain ⟨c, member, other⟩ := other
  have not_all : (Decimal.splitSign cs).2.all Digits.isDigit = false :=
    List.all_eq_false.mpr ⟨c, member, by simp [other]⟩
  simp [readInteger?, not_all]

theorem ofRun_decimalText {x : Float} (read : Decimal.read? (Decimal.text x).toList = some x) :
    ofRun (Decimal.text x).toList = .ok (.decimal x) := by
  obtain ⟨l, literal⟩ := Decimal.literal_of_read? read
  have mark := Decimal.mark_mem_text (Decimal.isFinite_of_read? read)
  have marked : ((Decimal.text x).toList.any fun c => c == '.' || c == 'e' || c == 'E') = true := by
    rcases mark with mark | mark
    · exact List.any_eq_true.mpr ⟨'.', mark, by decide⟩
    · exact List.any_eq_true.mpr ⟨'e', mark, by decide⟩
  rw [ofRun, if_pos (Decimal.looksNumeric_of_read? literal), readNumber?,
    readInteger?_eq_none mark]
  dsimp only
  rw [if_pos marked, read]
  rfl

end Datum

end BlockScript
