import Mathlib

/-!
# Rounding an integer to a decimal

The mantissa of the decimal nearest to an integer is made of its leading 53 bits. The bits behind
them are taken off one at a time; of these only the last and whether any before it was set are kept,
and they decide whether the mantissa is rounded up. Rounding grows with the integer, and an integer
of at most 53 bits is kept as it is.
-/

namespace BlockScript.Decimal

open Float.Model (UnpackedFloat Format)
open Float.Model.UnpackedFloat (ExtendedMantissa Accuracy Sign)

/-! ## Shifting and rounding -/

def residual (em : ExtendedMantissa) : Nat :=
  4 * em.mantissa + 2 * em.roundBit.toNat + em.stickyBit.toNat

theorem residual_shiftRightOne (em : ExtendedMantissa) :
    residual em.shiftRightOne =
      2 * em.mantissa + (em.roundBit || em.stickyBit).toNat := by
  have parts := Nat.div_add_mod em.mantissa 2
  unfold residual ExtendedMantissa.shiftRightOne
  rcases Nat.mod_two_eq_zero_or_one em.mantissa with even | odd
  · simp only [even, bne_self_eq_false, Bool.toNat_false]
    omega
  · simp only [odd, show (1 != 0) = true from rfl, Bool.toNat_true]
    omega

variable {x y : ExtendedMantissa}

theorem residual_shiftRightOne_mono (le : residual x ≤ residual y) :
    residual x.shiftRightOne ≤ residual y.shiftRightOne := by
  obtain ⟨m, r, s⟩ := x
  obtain ⟨m', r', s'⟩ := y
  rw [residual_shiftRightOne, residual_shiftRightOne]
  cases r <;> cases s <;> cases r' <;> cases s' <;> simp [residual] at le ⊢ <;> omega

theorem residual_shift_mono (le : residual x ≤ residual y) (n : Nat) :
    residual (x >>> n) ≤ residual (y >>> n) := by
  change residual (n.repeat ExtendedMantissa.shiftRightOne x) ≤
    residual (n.repeat ExtendedMantissa.shiftRightOne y)
  induction n with
  | zero => exact le
  | succ n ih => exact residual_shiftRightOne_mono ih

theorem roundedMantissa_mono (le : residual x ≤ residual y) :
    x.roundedMantissa ≤ y.roundedMantissa := by
  obtain ⟨m, r, s⟩ := x
  obtain ⟨m', r', s'⟩ := y
  cases r <;> cases s <;> cases r' <;> cases s' <;>
    simp [residual, ExtendedMantissa.roundedMantissa, ExtendedMantissa.accuracy,
      Accuracy.roundToNearestEven] at le ⊢ <;> omega

theorem mantissa_shift (em : ExtendedMantissa) (n : Nat) :
    (em >>> n).mantissa = em.mantissa / 2 ^ n := by
  change (n.repeat ExtendedMantissa.shiftRightOne em).mantissa = _
  induction n with
  | zero => exact (Nat.div_one _).symm
  | succ n ih =>
    change (n.repeat ExtendedMantissa.shiftRightOne em).mantissa / 2 = _
    rw [ih, Nat.div_div_eq_div_mul, Nat.pow_succ]

theorem mantissa_le_rounded (em : ExtendedMantissa) : em.mantissa ≤ em.roundedMantissa := by
  obtain ⟨m, r, s⟩ := em
  cases r <;> cases s <;> simp [ExtendedMantissa.roundedMantissa, ExtendedMantissa.accuracy,
    Accuracy.roundToNearestEven]

theorem rounded_le_mantissa (em : ExtendedMantissa) : em.roundedMantissa ≤ em.mantissa + 1 := by
  obtain ⟨m, r, s⟩ := em
  have even := Nat.mod_lt m Nat.two_pos
  cases r <;> cases s <;> simp [ExtendedMantissa.roundedMantissa, ExtendedMantissa.accuracy,
    Accuracy.roundToNearestEven]
  omega

def whole (m : Nat) : ExtendedMantissa := .ofMantissaAndAccuracy m .exact

/-- The leading 53 bits of a number, rounded, or all of them with zeros behind them. -/
def leading (m : Nat) : Nat := (whole (m * 2 ^ (52 - m.log2)) >>> (m.log2 - 52)).roundedMantissa

theorem leading_of_small {m : Nat} (small : m.log2 ≤ 52) : leading m = m * 2 ^ (52 - m.log2) := by
  rw [leading, Nat.sub_eq_zero_of_le small]
  rfl

theorem leading_of_large {m : Nat} (large : 52 ≤ m.log2) :
    leading m = (whole m >>> (m.log2 - 52)).roundedMantissa := by
  rw [leading, Nat.sub_eq_zero_of_le large, Nat.pow_zero, Nat.mul_one]

theorem leading_mono {m n : Nat} (le : m ≤ n) (bits : m.log2 = n.log2) :
    leading m ≤ leading n := by
  unfold leading
  rw [bits]
  refine roundedMantissa_mono (residual_shift_mono ?_ _)
  have scaled := Nat.mul_le_mul_right (2 ^ (52 - n.log2)) le
  simp only [residual, whole, ExtendedMantissa.ofMantissaAndAccuracy]
  omega

theorem scaled_bounds {m : Nat} (pos : 0 < m) (small : m.log2 ≤ 52) :
    2 ^ 52 ≤ m * 2 ^ (52 - m.log2) ∧ m * 2 ^ (52 - m.log2) < 2 ^ 53 := by
  have low : 2 ^ m.log2 * 2 ^ (52 - m.log2) = 2 ^ 52 := by
    rw [← Nat.pow_add, Nat.add_sub_cancel' small]
  have high : 2 ^ (m.log2 + 1) * 2 ^ (52 - m.log2) = 2 ^ 53 := by
    rw [← Nat.pow_add]; congr 1; omega
  constructor
  · rw [← low]
    exact Nat.mul_le_mul_right _ (Nat.log2_self_le (Nat.ne_of_gt pos))
  · rw [← high]
    exact Nat.mul_lt_mul_of_pos_right Nat.lt_log2_self (Nat.two_pow_pos _)

theorem quotient_bounds {m : Nat} (pos : 0 < m) (large : 52 ≤ m.log2) :
    2 ^ 52 ≤ m / 2 ^ (m.log2 - 52) ∧ m / 2 ^ (m.log2 - 52) < 2 ^ 53 := by
  have low : 2 ^ 52 * 2 ^ (m.log2 - 52) = 2 ^ m.log2 := by
    rw [← Nat.pow_add, Nat.add_sub_cancel' large]
  have high : 2 ^ 53 * 2 ^ (m.log2 - 52) = 2 ^ (m.log2 + 1) := by
    rw [← Nat.pow_add]; congr 1; omega
  constructor
  · refine (Nat.le_div_iff_mul_le (Nat.two_pow_pos _)).mpr ?_
    rw [low]
    exact Nat.log2_self_le (Nat.ne_of_gt pos)
  · refine (Nat.div_lt_iff_lt_mul (Nat.two_pow_pos _)).mpr ?_
    rw [high]
    exact Nat.lt_log2_self

theorem leading_bounds {m : Nat} (pos : 0 < m) : 2 ^ 52 ≤ leading m ∧ leading m ≤ 2 ^ 53 := by
  rcases Nat.le_total m.log2 52 with small | large
  · obtain ⟨low, high⟩ := scaled_bounds pos small
    rw [leading_of_small small]
    exact ⟨low, Nat.le_of_lt high⟩
  · obtain ⟨low, high⟩ := quotient_bounds pos large
    have mantissa : (whole m >>> (m.log2 - 52)).mantissa = m / 2 ^ (m.log2 - 52) :=
      mantissa_shift (whole m) _
    have least := mantissa_le_rounded (whole m >>> (m.log2 - 52))
    have most := rounded_le_mantissa (whole m >>> (m.log2 - 52))
    rw [leading_of_large large]
    omega

/-! ## Integers -/

/-- The mantissa and the exponent of the decimal nearest to a number. A mantissa that was rounded up
to 54 bits is halved. -/
def parts (m : Nat) : Nat × Int :=
  if leading m = 2 ^ 53 then (2 ^ 52, m.log2 - 51) else (leading m, m.log2 - 52)

theorem parts_bounds {m : Nat} (pos : 0 < m) :
    2 ^ 52 ≤ (parts m).1 ∧ (parts m).1 < 2 ^ 53 ∧
      (m.log2 : Int) - 52 ≤ (parts m).2 ∧ (parts m).2 ≤ m.log2 - 51 := by
  obtain ⟨low, high⟩ := leading_bounds pos
  unfold parts
  split <;> dsimp only <;> omega

theorem parts_of_small {m : Nat} (pos : 0 < m) (small : m.log2 ≤ 52) :
    parts m = (m * 2 ^ (52 - m.log2), (m.log2 : Int) - 52) := by
  have below := (scaled_bounds pos small).2
  rw [parts, leading_of_small small, if_neg (Nat.ne_of_lt below)]

theorem log2_of_bounds {m k : Nat} (low : 2 ^ k ≤ m) (high : m < 2 ^ (k + 1)) : m.log2 = k :=
  (Nat.log2_eq_iff (Nat.ne_of_gt (Nat.lt_of_lt_of_le (Nat.two_pow_pos k) low))).mpr ⟨low, high⟩

theorem targetExponent_eq {m : Nat} {e : Int} (normal : -1000 ≤ m.log2 + e) :
    Format.binary64.targetExponent (Float.Model.totalExponent m e) = m.log2 + e - 52 := by
  simp only [Format.targetExponent, Float.Model.totalExponent, Format.mantissaBits,
    Format.minExponent]
  omega

theorem shiftToTarget_eq {m : Nat} {e : Int} (normal : -1000 ≤ m.log2 + e)
    (full : 52 ≤ m.log2) :
    UnpackedFloat.shiftToTargetExponent .binary64 m e .exact =
      (whole m >>> (m.log2 - 52), m.log2 + e - 52) := by
  rw [UnpackedFloat.shiftToTargetExponent, targetExponent_eq normal,
    UnpackedFloat.shiftToExponent]
  have amount : ((m.log2 : Int) + e - 52 - e).toNat = m.log2 - 52 := by omega
  rw [amount]
  refine Prod.ext rfl ?_
  dsimp only
  omega

theorem log2_mul_pow {m : Nat} (pos : 0 < m) (k : Nat) : (m * 2 ^ k).log2 = m.log2 + k := by
  refine log2_of_bounds ?_ ?_
  · rw [Nat.pow_add]
    exact Nat.mul_le_mul_right _ (Nat.log2_self_le (Nat.ne_of_gt pos))
  · rw [Nat.add_right_comm, Nat.pow_add]
    exact Nat.mul_lt_mul_of_pos_right Nat.lt_log2_self (Nat.two_pow_pos k)

/-! Rounding shifts three times: a short mantissa is filled up with zeros, a long one is cut, and
one that was rounded up to 54 bits is halved. -/

theorem filled_eq (m : Nat) :
    UnpackedFloat.decreaseExponent m 0
      (Format.binary64.targetExponent (Float.Model.totalExponent m 0)) =
        (m * 2 ^ (52 - m.log2), -((52 - m.log2 : Nat) : Int)) := by
  have amount : (0 - ((m.log2 : Int) + 0 - 52)).toNat = 52 - m.log2 := by omega
  rw [targetExponent_eq (by omega), UnpackedFloat.decreaseExponent, amount, Nat.shiftLeft_eq]
  refine Prod.ext rfl ?_
  dsimp only
  omega

theorem cut_eq {m : Nat} (pos : 0 < m) :
    UnpackedFloat.shiftToTargetExponent .binary64 (m * 2 ^ (52 - m.log2))
      (-((52 - m.log2 : Nat) : Int)) .exact =
        (whole (m * 2 ^ (52 - m.log2)) >>> (m.log2 - 52), (m.log2 : Int) - 52) := by
  have bits := log2_mul_pow pos (52 - m.log2)
  have amount : (m * 2 ^ (52 - m.log2)).log2 - 52 = m.log2 - 52 := by omega
  rw [shiftToTarget_eq (by omega) (by omega), amount]
  refine Prod.ext rfl ?_
  dsimp only
  omega

theorem halved_eq {m : Nat} (pos : 0 < m) :
    UnpackedFloat.shiftToTargetExponent .binary64 (leading m) (m.log2 - 52) .exact =
      (whole (parts m).1, (parts m).2) := by
  obtain ⟨low, high⟩ := leading_bounds pos
  unfold parts
  split
  · next carried =>
    have log : (2 ^ 53 : Nat).log2 = 53 := Nat.log2_two_pow
    rw [carried, shiftToTarget_eq (by omega) (by omega), log]
    refine Prod.ext rfl ?_
    dsimp only
    omega
  · have log : (leading m).log2 = 52 := log2_of_bounds low (by omega)
    rw [shiftToTarget_eq (by omega) (by omega), log]
    refine Prod.ext rfl ?_
    dsimp only
    omega

theorem round_eq {m : Nat} (pos : 0 < m) (sign : Sign) (nonzero : 0 < (parts m).1) :
    UnpackedFloat.round .binary64 sign m 0 = .finite sign (parts m).1 (parts m).2 nonzero := by
  unfold UnpackedFloat.round
  dsimp only
  rw [filled_eq]
  unfold UnpackedFloat.roundWithAccuracy
  dsimp only
  rw [cut_eq pos]
  dsimp only
  rw [← leading, halved_eq pos]
  exact dif_neg (Nat.ne_of_gt nonzero)

theorem unpackSign_packComponents (sign : Sign) (e : BitVec 11) (m : BitVec 52) :
    Sign.ofBitVec (UnpackedFloat.unpackSign (UnpackedFloat.packComponents .binary64 sign e m)) =
      sign := by
  rw [UnpackedFloat.unpackSign, UnpackedFloat.packComponents, BitVec.extractLsb,
    BitVec.extractLsb'_append_eq_of_le (by decide), BitVec.extractLsb'_append_eq_of_le (by decide)]
  cases sign <;> rfl

/-- A normal decimal is unpacked as it was packed. -/
theorem unpack_pack {m : Nat} {e : Int} (sign : Sign) (pos : 0 < m) (low : 2 ^ 52 ≤ m)
    (high : m < 2 ^ 53) (least : -1000 ≤ e) (most : e ≤ 900) :
    (Float.Model.pack (.finite sign m e pos)).unpack = .finite sign m e pos := by
  have log : m.log2 = 52 := log2_of_bounds low high
  obtain ⟨biased, exponent⟩ := Int.eq_ofNat_of_zero_le (show 0 ≤ e + 1075 by omega)
  have bits : UnpackedFloat.pack .binary64 (.finite sign m e pos) =
      UnpackedFloat.packComponents .binary64 sign (BitVec.ofNat 11 biased) (BitVec.ofNat 52 m) := by
    have exponentBits : (e + (Format.binary64.exponentBias : Int) +
        (Format.binary64.mantissaBitsWithoutImplicit : Int)).toNat = biased := by
      simp only [Format.exponentBias]
      omega
    rw [UnpackedFloat.pack]
    dsimp only
    rw [exponentBits, log, if_neg (by omega),
      if_pos (show 52 + 1 = Format.binary64.mantissaBits from rfl)]
  have exponentVec : (BitVec.ofNat 11 biased).toNat = biased :=
    (BitVec.toNat_ofNat ..).trans (Nat.mod_eq_of_lt (by omega))
  have mantissaVec : (1#1 ++ BitVec.ofNat 52 m).toNat = m := by
    rw [BitVec.toNat_append, ← Nat.shiftLeft_add_eq_or_of_lt (BitVec.isLt _), BitVec.toNat_ofNat,
      BitVec.toNat_ofNat, Nat.shiftLeft_eq]
    omega
  have differs {v : BitVec 11} (other : v.toNat ≠ biased) : BitVec.ofNat 11 biased ≠ v :=
    fun same => other (same ▸ exponentVec)
  have notTop : BitVec.ofNat 11 biased ≠ -1#11 :=
    differs (show (2047 : Nat) ≠ biased by omega)
  have notZero : BitVec.ofNat 11 biased ≠ 0#11 := differs (show (0 : Nat) ≠ biased by omega)
  change UnpackedFloat.unpack .binary64 (UnpackedFloat.pack .binary64 (.finite sign m e pos)) = _
  rw [bits, UnpackedFloat.unpack]
  simp only [UnpackedFloat.unpackMantissa_packComponents,
    UnpackedFloat.unpackExponent_packComponents, unpackSign_packComponents]
  rw [if_neg notTop, if_neg notZero]
  simp only [mantissaVec, exponentVec, Format.exponentBias]
  congr 1
  omega

end BlockScript.Decimal
