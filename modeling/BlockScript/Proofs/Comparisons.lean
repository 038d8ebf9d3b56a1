import BlockScript.Proofs.DecimalOrder
import BlockScript.Proofs.EqualityLaws
import BlockScript.Proofs.OperatorResults

/-!
# Comparing

Numbers are ordered with numbers and strings with strings. The order agrees with equality: of two
operands that have one exactly one is less, equal or greater, and the six operators follow from
that. Between numbers the order is that of places, except that two integers are compared as they
are, also if they share a place.
-/

namespace BlockScript

def Value.isNumber : Value → Bool
  | .integer _ | .decimal _ => true
  | _ => false

def Value.isText : Value → Bool
  | .text _ => true
  | _ => false

theorem Value.integers_or_mixed {a b : Value} (number : a.isNumber = true)
    (number' : b.isNumber = true) :
    (∃ m n, a = .integer m ∧ b = .integer n) ∨ a.kind = .decimal ∨ b.kind = .decimal := by
  cases a with
  | integer m =>
    cases b with
    | integer n => exact .inl ⟨m, n, rfl, rfl⟩
    | decimal y => exact .inr (.inr rfl)
    | _ => cases number'
  | decimal x => exact .inr (.inl rfl)
  | _ => cases number

theorem Value.mixed_cases {a b : Value} (number : a.isNumber = true) (number' : b.isNumber = true)
    (mixed : a.kind = .decimal ∨ b.kind = .decimal) :
    (∃ m y, a = .integer m ∧ b = .decimal y) ∨ (∃ x n, a = .decimal x ∧ b = .integer n) ∨
      ∃ x y, a = .decimal x ∧ b = .decimal y := by
  cases a with
  | integer m =>
    cases b with
    | integer n => rcases mixed with mixed | mixed <;> cases mixed
    | decimal y => exact .inl ⟨m, y, rfl, rfl⟩
    | _ => cases number'
  | decimal x =>
    cases b with
    | integer n => exact .inr (.inl ⟨x, n, rfl, rfl⟩)
    | decimal y => exact .inr (.inr ⟨x, y, rfl, rfl⟩)
    | _ => cases number'
  | _ => cases number

def Value.place : Value → Int ×ₗ Int ×ₗ Int
  | .integer n => Decimal.place (Decimal.nearest n).toModel.unpack
  | .decimal x => Decimal.place x.toModel.unpack
  | _ => Decimal.place .notANumber

/-! ## Decimals -/

namespace Decimal

variable {x y : Float}

theorem compareFloats_eq (number : x.isNaN = false) (number' : y.isNaN = false) :
    Operators.compareFloats x y =
      some (compare (place x.toModel.unpack) (place y.toModel.unpack)) := by
  have forward := compare_eq_place (u := x.toModel.unpack) (v := y.toModel.unpack) number number'
  have backward := compare_eq_place (u := y.toModel.unpack) (v := x.toModel.unpack) number' number
  simp only [Operators.compareFloats, lt_iff, beq_iff_compare, forward, backward, Option.some_inj,
    compare_lt_iff_lt, compare_eq_iff_eq]
  rcases lt_trichotomy (place x.toModel.unpack) (place y.toModel.unpack) with less | same | greater
  · rw [if_pos less, compare_lt_iff_lt.mpr less]
  · rw [if_neg (not_lt.mpr same.ge), if_pos same, compare_eq_iff_eq.mpr same]
  · rw [if_neg greater.asymm, if_neg greater.ne', if_pos greater, compare_gt_iff_gt.mpr greater]

end Decimal

/-! ## The order of two operands -/

variable {h : Heap} {a b c : Value} {o : Ordering}

inductive Ordered (h : Heap) : Value → Value → Ordering → Prop where
  | integers (m n : Int64) : Ordered h (.integer m) (.integer n) (compare m.toInt n.toInt)
  | numbers {a b : Value} (number : a.isNumber = true) (number' : b.isNumber = true)
      (mixed : a.kind = .decimal ∨ b.kind = .decimal) : Ordered h a b (compare a.place b.place)
  | texts (i j : TextId) :
      Ordered h (.text i) (.text j) (compare (Text.lower (h.text i)) (Text.lower (h.text j)))

theorem order?_eq_some_iff (number : a.isNaN = false) (number' : b.isNaN = false) :
    Operators.order? h a b = some o ↔ Ordered h a b o := by
  constructor
  · intro ordered
    unfold Operators.order? at ordered
    split at ordered
    · obtain rfl := Option.some.inj ordered
      exact .integers _ _
    · rw [Decimal.compareFloats_eq (Decimal.nearest_isNaN _) number'] at ordered
      obtain rfl := Option.some.inj ordered
      exact .numbers (a := .integer _) (b := .decimal _) rfl rfl (.inr rfl)
    · rw [Decimal.compareFloats_eq number (Decimal.nearest_isNaN _)] at ordered
      obtain rfl := Option.some.inj ordered
      exact .numbers (a := .decimal _) (b := .integer _) rfl rfl (.inl rfl)
    · rw [Decimal.compareFloats_eq number number'] at ordered
      obtain rfl := Option.some.inj ordered
      exact .numbers (a := .decimal _) (b := .decimal _) rfl rfl (.inl rfl)
    · obtain rfl := Option.some.inj ordered
      exact .texts _ _
    · cases ordered
  · intro ordered
    cases ordered with
    | integers m n => rfl
    | texts i j => rfl
    | numbers isNumber isNumber' mixed =>
      rcases Value.mixed_cases isNumber isNumber' mixed with
        ⟨m, y, rfl, rfl⟩ | ⟨x, n, rfl, rfl⟩ | ⟨x, y, rfl, rfl⟩
      · exact Decimal.compareFloats_eq (Decimal.nearest_isNaN m) number'
      · exact Decimal.compareFloats_eq number (Decimal.nearest_isNaN n)
      · exact Decimal.compareFloats_eq number number'

def Comparable (a b : Value) : Prop :=
  (a.isNumber = true ∧ b.isNumber = true) ∨ (a.isText = true ∧ b.isText = true)

theorem comparable_iff : Comparable a b ↔ ∃ o, Ordered h a b o := by
  constructor
  · rintro (⟨number, number'⟩ | ⟨text, text'⟩)
    · rcases Value.integers_or_mixed number number' with ⟨m, n, rfl, rfl⟩ | mixed
      · exact ⟨_, .integers m n⟩
      · exact ⟨_, .numbers number number' mixed⟩
    · cases a with
      | text i =>
        cases b with
        | text j => exact ⟨_, .texts i j⟩
        | _ => cases text'
      | _ => cases text
  · rintro ⟨o, ordered⟩
    cases ordered with
    | integers => exact .inl ⟨rfl, rfl⟩
    | numbers number number' => exact .inl ⟨number, number'⟩
    | texts => exact .inr ⟨rfl, rfl⟩

namespace Ordered

theorem swap (ordered : Ordered h a b o) : Ordered h b a o.swap := by
  cases ordered with
  | integers m n =>
    rw [← Std.OrientedOrd.eq_swap]
    exact .integers n m
  | numbers number number' mixed =>
    rw [← Std.OrientedOrd.eq_swap]
    exact .numbers number' number mixed.symm
  | texts i j =>
    rw [← Std.OrientedOrd.eq_swap]
    exact .texts j i

/-- Equality is the middle one of the three orders. -/
theorem equal_iff (number : a.isNaN = false) (number' : b.isNaN = false)
    (ordered : Ordered h a b o) : h.equal a b = true ↔ o = .eq := by
  cases ordered with
  | integers m n =>
    rw [compare_eq_iff_eq, Int64.toInt_inj]
    exact beq_iff_eq
  | texts i j =>
    rw [Std.LawfulEqCmp.compare_eq_iff_eq]
    change (i == j || Text.lower (h.text i) == Text.lower (h.text j)) = true ↔ _
    rw [Bool.or_eq_true, beq_iff_eq, beq_iff_eq]
    exact or_iff_right_of_imp fun same => by rw [same]
  | numbers isNumber isNumber' mixed =>
    rw [compare_eq_iff_eq]
    rcases Value.mixed_cases isNumber isNumber' mixed with
      ⟨m, y, rfl, rfl⟩ | ⟨x, n, rfl, rfl⟩ | ⟨x, y, rfl, rfl⟩
    · exact Decimal.beq_iff_place (Decimal.nearest_isNaN m) number'
    · exact (Decimal.beq_iff_place (Decimal.nearest_isNaN n) number).trans eq_comm
    · exact Decimal.beq_iff_place number number'

theorem isNumber (ordered : Ordered h a b o) (number : a.isNumber = true) : b.isNumber = true := by
  cases ordered with
  | integers => rfl
  | numbers _ number' => exact number'
  | texts => cases number

theorem isNumber_or_isText (ordered : Ordered h a b o) :
    (a.isNumber = true ∧ b.isNumber = true) ∨ ∃ i j, a = .text i ∧ b = .text j := by
  cases ordered with
  | integers => exact .inl ⟨rfl, rfl⟩
  | numbers number number' => exact .inl ⟨number, number'⟩
  | texts i j => exact .inr ⟨i, j, rfl, rfl⟩

/-- A number that is less has a lower place, or both are integers that share one. -/
theorem place_of_lt (ordered : Ordered h a b .lt) (number : a.isNumber = true) :
    a.place < b.place ∨ ∃ m n : Int64, a = .integer m ∧ b = .integer n ∧ m.toInt < n.toInt ∧
      a.place ≤ b.place := by
  generalize less : Ordering.lt = o at ordered
  cases ordered with
  | integers m n =>
    have less := compare_lt_iff_lt.mp less.symm
    exact .inr ⟨m, n, rfl, rfl, less, Decimal.nearest_place_mono less.le⟩
  | numbers => exact .inl (compare_lt_iff_lt.mp less.symm)
  | texts => cases number

theorem of_place_lt (number : a.isNumber = true) (number' : b.isNumber = true)
    (less : a.place < b.place) : Ordered h a b .lt := by
  rcases Value.integers_or_mixed number number' with ⟨m, n, rfl, rfl⟩ | mixed
  · have less : m.toInt < n.toInt :=
      not_le.mp fun le => absurd (Decimal.nearest_place_mono le) (not_le.mpr less)
    exact compare_lt_iff_lt.mpr less ▸ .integers m n
  · exact compare_lt_iff_lt.mpr less ▸ .numbers number number' mixed

theorem texts_lt {i j : TextId} (ordered : Ordered h (.text i) (.text j) o) :
    compare (Text.lower (h.text i)) (Text.lower (h.text j)) = o := by
  cases ordered with
  | numbers number => cases number
  | texts => rfl

theorem of_texts_lt {i j : TextId}
    (less : compare (Text.lower (h.text i)) (Text.lower (h.text j)) = .lt) :
    Ordered h (.text i) (.text j) .lt :=
  less ▸ .texts i j

theorem lt_trans (first : Ordered h a b .lt) (second : Ordered h b c .lt) : Ordered h a c .lt := by
  rcases first.isNumber_or_isText with ⟨number, number'⟩ | ⟨i, j, rfl, rfl⟩
  · have number'' := second.isNumber number'
    rcases first.place_of_lt number with less | ⟨m, n, rfl, rfl, less, le⟩
    · rcases second.place_of_lt number' with less' | ⟨-, -, -, -, -, le'⟩
      · exact of_place_lt number number'' (less.trans less')
      · exact of_place_lt number number'' (less.trans_le le')
    · rcases second.place_of_lt number' with less' | ⟨_, k, same, rfl, less', -⟩
      · exact of_place_lt number number'' (le.trans_lt less')
      · cases same
        exact compare_lt_iff_lt.mpr (less.trans less') ▸ .integers m k
  · rcases second.isNumber_or_isText with ⟨number, -⟩ | ⟨_, k, same, rfl⟩
    · cases number
    · cases same
      exact of_texts_lt (Std.TransCmp.lt_trans first.texts_lt second.texts_lt)

end Ordered

/-! ## The operators -/

section Operators

variable (ev : Evaluator) (s : State) {op : Operator} {flag : Bool}

def Answers (op : Operator) (a b : Value) (flag : Bool) : Prop :=
  Operators.Yields ev s op a b (.logic flag)

def CannotUse (op : Operator) (a b : Value) : Prop :=
  Operators.Raises ev s op a b (.cannotUse op.symbol b.kind.name)

def Operator.orderings : List Operator := [less, greater, lessEqual, greaterEqual]

structure ComparisonLaws : Prop where
  answers_iff (op : Operator) (a b : Value) : op ∈ Operator.orderings → a.isNaN = false →
    b.isNaN = false → ((∃ flag, Answers ev s op a b flag) ↔ Comparable a b)
  cannotUse_iff (op : Operator) (a b : Value) : op ∈ Operator.orderings → a.isNaN = false →
    b.isNaN = false → (CannotUse ev s op a b ↔ ¬ Comparable a b)
  exactly_one (a b : Value) : a.isNaN = false → b.isNaN = false → Comparable a b →
    ∃! op, op ∈ [Operator.less, .equal, .greater] ∧ Answers ev s op a b true
  lessEqual_iff (a b : Value) (flag : Bool) :
    Answers ev s .lessEqual a b flag ↔ Answers ev s .greater a b (!flag)
  greaterEqual_iff (a b : Value) (flag : Bool) :
    Answers ev s .greaterEqual a b flag ↔ Answers ev s .less a b (!flag)
  notEqual_iff (a b : Value) (flag : Bool) :
    Answers ev s .notEqual a b flag ↔ Answers ev s .equal a b (!flag)
  greater_iff (a b : Value) (flag : Bool) : a.isNaN = false → b.isNaN = false →
    (Answers ev s .greater a b flag ↔ Answers ev s .less b a flag)
  less_trans (a b c : Value) : a.isNaN = false → b.isNaN = false → c.isNaN = false →
    Answers ev s .less a b true → Answers ev s .less b c true → Answers ev s .less a c true

variable {ev s}

theorem answers_iff_order (accepts : Ordering → Bool)
    (orders : ∀ h a b, Operators.apply h a b op = Operators.holds h op accepts a b) :
    Answers ev s op a b flag ↔ ∃ o, Operators.order? s.heap a b = some o ∧ accepts o = flag := by
  rw [Answers, Operators.yields_iff, orders, Operators.holds]
  cases Operators.order? s.heap a b <;> simp

theorem answers_less_iff : Answers ev s .less a b flag ↔
    ∃ o, Operators.order? s.heap a b = some o ∧ o.isLT = flag :=
  answers_iff_order _ fun _ _ _ => rfl

theorem answers_greater_iff : Answers ev s .greater a b flag ↔
    ∃ o, Operators.order? s.heap a b = some o ∧ o.isGT = flag :=
  answers_iff_order _ fun _ _ _ => rfl

theorem answers_equal_iff : Answers ev s .equal a b flag ↔ s.heap.equal a b = flag := by
  rw [Answers, Operators.yields_iff]
  simp [Operators.apply]

/-- Each operator that orders its operands holds for some of the three orders. -/
theorem exists_accepts (orders : op ∈ Operator.orderings) :
    ∃ accepts, ∀ h a b, Operators.apply h a b op = Operators.holds h op accepts a b := by
  cases op with
  | less | greater | lessEqual | greaterEqual => exact ⟨_, fun _ _ _ => rfl⟩
  | _ => simp [Operator.orderings] at orders

def ofOrder : Ordering → Operator
  | .lt => .less
  | .eq => .equal
  | .gt => .greater

theorem answers_iff_ordered (ev : Evaluator) (number : a.isNaN = false) (number' : b.isNaN = false)
    (ordered : Ordered s.heap a b o) (o' : Ordering) :
    Answers ev s (ofOrder o') a b true ↔ o = o' := by
  have order := (order?_eq_some_iff number number').mpr ordered
  cases o' with
  | lt =>
    rw [ofOrder, answers_less_iff, order]
    cases o <;> simp
  | eq =>
    rw [ofOrder, answers_equal_iff]
    exact ordered.equal_iff number number'
  | gt =>
    rw [ofOrder, answers_greater_iff, order]
    cases o <;> simp

theorem comparisons_obey_laws (ev : Evaluator) (s : State) : ComparisonLaws ev s where
  answers_iff op a b orders number number' := by
    obtain ⟨accepts, apply⟩ := exists_accepts orders
    rw [comparable_iff (h := s.heap)]
    simp only [answers_iff_order accepts apply, order?_eq_some_iff number number']
    constructor
    · rintro ⟨flag, o, ordered, -⟩
      exact ⟨o, ordered⟩
    · rintro ⟨o, ordered⟩
      exact ⟨accepts o, o, ordered, rfl⟩
  cannotUse_iff op a b orders number number' := by
    obtain ⟨accepts, apply⟩ := exists_accepts orders
    rw [CannotUse, Operators.raises_iff, apply, Operators.holds, comparable_iff (h := s.heap)]
    simp only [← order?_eq_some_iff number number']
    cases Operators.order? s.heap a b <;> simp
  exactly_one a b number number' comparable := by
    obtain ⟨o, ordered⟩ := (comparable_iff (h := s.heap)).mp comparable
    have decides := answers_iff_ordered ev number number' ordered
    refine ⟨ofOrder o, ⟨?_, (decides o).mpr rfl⟩, ?_⟩
    · cases o <;> simp [ofOrder]
    · rintro op ⟨member, answers⟩
      simp only [List.mem_cons, List.not_mem_nil, or_false] at member
      rcases member with rfl | rfl | rfl
      · rw [(decides .lt).mp answers, ofOrder]
      · rw [(decides .eq).mp answers, ofOrder]
      · rw [(decides .gt).mp answers, ofOrder]
  lessEqual_iff a b flag := by
    rw [answers_greater_iff, answers_iff_order (·.isLE) fun _ _ _ => rfl]
    refine exists_congr fun o => and_congr_right fun _ => ?_
    cases o <;> cases flag <;> decide
  greaterEqual_iff a b flag := by
    rw [answers_less_iff, answers_iff_order (·.isGE) fun _ _ _ => rfl]
    refine exists_congr fun o => and_congr_right fun _ => ?_
    cases o <;> cases flag <;> decide
  notEqual_iff a b flag := by
    rw [answers_equal_iff, Answers, Operators.yields_iff]
    cases flag <;> simp [Operators.apply]
  greater_iff a b flag number number' := by
    simp only [answers_greater_iff, answers_less_iff, order?_eq_some_iff number number',
      order?_eq_some_iff number' number]
    constructor
    · rintro ⟨o, ordered, rfl⟩
      exact ⟨o.swap, ordered.swap, by cases o <;> rfl⟩
    · rintro ⟨o, ordered, rfl⟩
      exact ⟨o.swap, ordered.swap, by cases o <;> rfl⟩
  less_trans a b c number number' number'' first second := by
    rw [answers_less_iff] at first second ⊢
    obtain ⟨o, ordered, less⟩ := first
    obtain ⟨o', ordered', less'⟩ := second
    obtain rfl := Ordering.isLT_iff_eq_lt.mp less
    obtain rfl := Ordering.isLT_iff_eq_lt.mp less'
    rw [order?_eq_some_iff number number'] at ordered
    rw [order?_eq_some_iff number' number''] at ordered'
    exact ⟨.lt, (order?_eq_some_iff number number'').mpr (ordered.lt_trans ordered'), rfl⟩

end Operators

end BlockScript
