import BlockScript.Decimal.Nearest
import BlockScript.Proofs.Numbers
import BlockScript.Proofs.Rounding

/-!
# The order of decimals

Decimals that are no NaN are ordered by their place, which is made of sign, exponent and mantissa.
An integer has the place of the decimal nearest to it: the places grow with the integers, and below
2 ^ 53 no two integers share one.
-/

namespace BlockScript.Decimal

open Float.Model (UnpackedFloat)
open Float.Model.UnpackedFloat (Sign)

def place : UnpackedFloat → Int ×ₗ Int ×ₗ Int
  | .infinity .negative => toLex (-2, toLex (0, 0))
  | .finite .negative m e _ => toLex (-1, toLex (-e, -m))
  | .finite .positive m e _ => toLex (1, toLex (e, m))
  | .infinity .positive => toLex (2, toLex (0, 0))
  | .zero _ => toLex (0, toLex (0, 0))
  | .notANumber => toLex (0, toLex (0, 0))

theorem compare_toLex {α β : Type} [LinearOrder α] [LinearOrder β] (a a' : α) (b b' : β) :
    compare (toLex (a, b)) (toLex (a', b')) = (compare a a').then (compare b b') := by
  rw [Prod.Lex.compare_def]
  rfl

theorem compare_natCast (a b : Nat) : compare (a : Int) b = compare a b := by
  have mono : StrictMono fun n : Nat => (n : Int) := fun _ _ => Int.ofNat_lt.mpr
  rw [← cmp_eq_compare, ← cmp_eq_compare]
  exact mono.cmp_map_eq a b

theorem compare_neg (a b : Int) : compare (-a) (-b) = compare b a := by
  have anti : StrictAnti fun n : Int => -n := fun _ _ => Int.neg_lt_neg
  rw [← cmp_eq_compare, ← cmp_eq_compare]
  exact anti.cmp_map_eq a b

variable {u v w : UnpackedFloat}

theorem compare_eq_place (number : u.isNaN = false) (number' : v.isNaN = false) :
    u.compare v = some (compare (place u) (place v)) := by
  cases u with
  | notANumber => cases number
  | infinity s =>
    cases v with
    | notANumber => cases number'
    | infinity s' => cases s <;> cases s' <;> rfl
    | zero s' => cases s <;> rfl
    | finite s' m' e' pos' => cases s <;> cases s' <;> rfl
  | zero s =>
    cases v with
    | notANumber => cases number'
    | infinity s' => cases s' <;> rfl
    | zero s' => rfl
    | finite s' m' e' pos' => cases s' <;> rfl
  | finite s m e pos =>
    cases v with
    | notANumber => cases number'
    | infinity s' => cases s <;> cases s' <;> rfl
    | zero s' => cases s <;> rfl
    | finite s' m' e' pos' =>
      cases s <;> cases s'
      case negative.negative =>
        simp only [UnpackedFloat.compare, place, compare_toLex, compare_neg, compare_natCast,
          Ordering.swap_then, Int.compare_swap, Nat.compare_swap]
        rfl
      case positive.positive =>
        simp only [UnpackedFloat.compare, place, compare_toLex, compare_natCast]
        rfl
      all_goals rfl

/-! ## The order of the nearest decimals -/

theorem log2_mono {m n : Nat} (le : m ≤ n) : m.log2 ≤ n.log2 := by
  rcases Nat.eq_zero_or_pos m with rfl | pos
  · exact Nat.zero_le _
  · exact (Nat.le_log2 (by omega)).mpr (Nat.le_trans (Nat.log2_self_le (by omega)) le)

theorem parts_mono {m n : Nat} (pos : 0 < m) (le : m ≤ n) :
    toLex ((parts m).2, ((parts m).1 : Int)) ≤ toLex ((parts n).2, ((parts n).1 : Int)) := by
  have pos' := Nat.lt_of_lt_of_le pos le
  have low := (leading_bounds pos').1
  rw [Prod.Lex.toLex_le_toLex]
  rcases Nat.lt_or_eq_of_le (log2_mono le) with fewer | same
  · -- One bit more outweighs a mantissa that was rounded up.
    unfold parts
    split <;> split <;> dsimp only <;> omega
  · have mono := leading_mono le same
    have top := (leading_bounds pos').2
    unfold parts
    split <;> split <;> dsimp only <;> omega

/-- The sign, mantissa and exponent of the decimal nearest to an integer. -/
inductive Nearest : Int → UnpackedFloat → Prop where
  | zero : Nearest 0 (.zero .positive)
  | positive {m : Nat} (pos : 0 < m) (nonzero : 0 < (parts m).1) :
      Nearest m (.finite .positive (parts m).1 (parts m).2 nonzero)
  | negative {m : Nat} (pos : 0 < m) (nonzero : 0 < (parts m).1) :
      Nearest (-m) (.finite .negative (parts m).1 (parts m).2 nonzero)

theorem normalize_neg {m : Nat} (pos : 0 < m) :
    UnpackedFloat.normalize .binary64 (-m) 0 .positive =
      UnpackedFloat.round .binary64 .negative m 0 := by
  rw [UnpackedFloat.normalize, Int.compare_eq_lt.mpr (by omega), Int.neg_neg]
  rfl

theorem normalize_pos {m : Nat} (pos : 0 < m) :
    UnpackedFloat.normalize .binary64 m 0 .positive =
      UnpackedFloat.round .binary64 .positive m 0 := by
  rw [UnpackedFloat.normalize, Int.compare_eq_gt.mpr (by omega)]
  rfl

theorem unpack_round {m : Nat} (sign : Sign) (pos : 0 < m) (bound : m ≤ 2 ^ 63) :
    ∃ nonzero : 0 < (parts m).1,
      (Float.Model.pack (UnpackedFloat.round .binary64 sign m 0)).unpack =
        .finite sign (parts m).1 (parts m).2 nonzero := by
  obtain ⟨low, high, least, most⟩ := parts_bounds pos
  have nonzero : 0 < (parts m).1 := by omega
  have bits : m.log2 < 64 := (Nat.log2_lt (Nat.ne_of_gt pos)).mpr (by omega)
  refine ⟨nonzero, ?_⟩
  rw [round_eq pos sign nonzero]
  exact unpack_pack sign nonzero low high (by omega) (by omega)

theorem unpack_nearest (n : Int64) : Nearest n.toInt (nearest n).toModel.unpack := by
  have low := n.le_toInt
  have high := n.toInt_lt
  change Nearest n.toInt
    (Float.Model.pack (UnpackedFloat.normalize .binary64 n.toInt 0 .positive)).unpack
  generalize n.toInt = n at low high ⊢
  rcases Int.lt_trichotomy n 0 with below | rfl | above
  · obtain ⟨m, rfl⟩ := Int.exists_eq_neg_ofNat (Int.le_of_lt below)
    obtain ⟨nonzero, same⟩ := unpack_round (m := m) .negative (by omega) (by omega)
    rw [normalize_neg (by omega), same]
    exact .negative (by omega) nonzero
  · exact .zero
  · obtain ⟨m, rfl⟩ := Int.eq_ofNat_of_zero_le (Int.le_of_lt above)
    obtain ⟨nonzero, same⟩ := unpack_round (m := m) .positive (by omega) (by omega)
    rw [normalize_pos (by omega), same]
    exact .positive (by omega) nonzero

theorem Nearest.isNaN {n : Int} (near : Nearest n u) : u.isNaN = false := by
  cases near <;> rfl

theorem Nearest.place_mono {m n : Int} (near : Nearest m u) (near' : Nearest n v) (le : m ≤ n) :
    place u ≤ place v := by
  cases near with
  | zero =>
    cases near' with
    | zero => exact le_refl _
    | positive => exact Prod.Lex.toLex_le_toLex.mpr (.inl (show (0 : Int) < 1 by decide))
    | negative => omega
  | positive pos =>
    cases near' with
    | zero => omega
    | positive =>
      exact Prod.Lex.toLex_le_toLex.mpr (.inr ⟨rfl, parts_mono pos (Int.ofNat_le.mp le)⟩)
    | negative => omega
  | negative =>
    cases near' with
    | zero => exact Prod.Lex.toLex_le_toLex.mpr (.inl (show (-1 : Int) < 0 by decide))
    | positive => exact Prod.Lex.toLex_le_toLex.mpr (.inl (show (-1 : Int) < 1 by decide))
    | negative pos =>
      have mono := parts_mono pos (Int.ofNat_le.mp (Int.neg_le_neg_iff.mp le))
      rw [Prod.Lex.toLex_le_toLex] at mono
      refine Prod.Lex.toLex_le_toLex.mpr (.inr ⟨rfl, Prod.Lex.toLex_le_toLex.mpr ?_⟩)
      dsimp only at mono ⊢
      omega

/-- Below 2 ^ 53 no two integers have the same nearest decimal, and above it none has that of an
integer below. -/
theorem parts_inj {m n : Nat} (pos : 0 < m) (pos' : 0 < n) (small : m < 2 ^ 53)
    (same : parts m = parts n) : m = n := by
  have bits : m.log2 ≤ 52 := by
    have := (Nat.log2_lt (Nat.ne_of_gt pos)).mpr small
    omega
  have bits' : n.log2 ≤ 52 := by
    have := (parts_bounds pos').2.2.1
    rw [← same, parts_of_small pos bits] at this
    dsimp only at this
    omega
  rw [parts_of_small pos bits, parts_of_small pos' bits', Prod.mk.injEq] at same
  have equal : m.log2 = n.log2 := by omega
  rw [equal] at same
  exact Nat.eq_of_mul_eq_mul_right (Nat.two_pow_pos _) same.1

theorem Nearest.inj {m n : Int} (near : Nearest m u) (near' : Nearest n v)
    (small : m.natAbs < 2 ^ 53) (same : place u = place v) : m = n := by
  have both {α β : Type} {a b : α} {c d : β} (same : toLex (a, c) = toLex (b, d)) :
      a = b ∧ c = d :=
    Prod.mk.inj (toLex_inj.mp same)
  cases near with
  | zero =>
    cases near' with
    | zero => rfl
    | positive => cases (both same).1
    | negative => cases (both same).1
  | positive pos =>
    cases near' with
    | zero => cases (both same).1
    | positive pos' =>
      obtain ⟨exponents, mantissas⟩ := both (both same).2
      exact congrArg _ (parts_inj pos pos' small (Prod.ext (Int.ofNat_inj.mp mantissas) exponents))
    | negative => cases (both same).1
  | negative pos =>
    cases near' with
    | zero => cases (both same).1
    | positive => cases (both same).1
    | negative pos' =>
      obtain ⟨exponents, mantissas⟩ := both (both same).2
      have same := Prod.ext (Int.ofNat_inj.mp (Int.neg_inj.mp mantissas)) (Int.neg_inj.mp exponents)
      rw [parts_inj pos pos' (by omega) same]

/-! ## Decimals and integers -/

variable {x y : Float}

theorem lt_iff : x < y ↔ x.toModel.unpack.compare y.toModel.unpack = some .lt := by
  change decide (x.toModel < y.toModel) = true ↔ _
  rw [decide_eq_true_iff]
  exact beq_iff_eq

theorem beq_iff_compare :
    (x == y) = true ↔ x.toModel.unpack.compare y.toModel.unpack = some .eq := by
  change (x.toModel.unpack.compare y.toModel.unpack == some .eq) = true ↔ _
  exact beq_iff_eq

theorem beq_iff_place (number : x.isNaN = false) (number' : y.isNaN = false) :
    (x == y) = true ↔ place x.toModel.unpack = place y.toModel.unpack := by
  rw [beq_iff_compare, compare_eq_place (u := x.toModel.unpack) (v := y.toModel.unpack) number
    number', Option.some_inj, compare_eq_iff_eq]

theorem nearest_isNaN (n : Int64) : (nearest n).isNaN = false := (unpack_nearest n).isNaN

theorem nearest_place_mono {m n : Int64} (le : m.toInt ≤ n.toInt) :
    place (nearest m).toModel.unpack ≤ place (nearest n).toModel.unpack :=
  (unpack_nearest m).place_mono (unpack_nearest n) le

end BlockScript.Decimal
