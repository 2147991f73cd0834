import Blockwise.Proofs.Numeral.Nearest
import Blockwise.Proofs.Numeral.Scale

/-!
# The doubles of integers

The double of an integer is that of the nearest integer of 53 bits of precision
(`unpack_ofInt`), with the mantissa and the exponent that `integral` gives.
The conversion goes through several roundings, and each of them rounds a number
that has been shifted to the left. What a shift to the right cuts off is remembered
in two bits (`ShiftedRight`), and they suffice to round to the nearest integer.
-/

namespace Blockwise.Binary64

open Float.Model
open Float.Model.UnpackedFloat

/-! ## The bits that are cut off -/

/-- What is left of `n` when its last `k` bits are cut off. -/
structure ShiftedRight (n k : Nat) (m : ExtendedMantissa) : Prop where
  mantissa_eq : m.mantissa = n / 2 ^ k
  roundBit_iff : m.roundBit = true ↔ 2 ^ k ≤ 2 * (n % 2 ^ k)
  stickyBit_iff : m.stickyBit = true ↔ 2 * (n % 2 ^ k) ≠ 0 ∧ 2 * (n % 2 ^ k) ≠ 2 ^ k

theorem ShiftedRight.succ {n k : Nat} {m : ExtendedMantissa} (h : ShiftedRight n k m) :
    ShiftedRight n (k + 1) m.shiftRightOne := by
  have hlt := Nat.mod_lt n (Nat.two_pow_pos k)
  have hmod : n % 2 ^ (k + 1) = n % 2 ^ k + 2 ^ k * (n / 2 ^ k % 2) := by
    rw [Nat.pow_succ, Nat.mod_mul]
  refine ⟨?_, ?_, ?_⟩
  · change m.mantissa / 2 = _
    rw [h.mantissa_eq, Nat.div_div_eq_div_mul, Nat.pow_succ]
  · change (m.mantissa % 2 != 0) = true ↔ _
    rw [h.mantissa_eq, hmod, bne_iff_ne, Nat.pow_succ]
    rcases Nat.mod_two_eq_zero_or_one (n / 2 ^ k) with hbit | hbit <;> rw [hbit] <;> omega
  · change (m.roundBit || m.stickyBit) = true ↔ _
    rw [Bool.or_eq_true, h.roundBit_iff, h.stickyBit_iff, hmod, Nat.pow_succ]
    rcases Nat.mod_two_eq_zero_or_one (n / 2 ^ k) with hbit | hbit <;> rw [hbit] <;> omega

theorem shiftedRight (n k : Nat) :
    ShiftedRight n k (ExtendedMantissa.ofMantissaAndAccuracy n .exact >>> k) := by
  induction k with
  | zero =>
    have hmod : n % 2 ^ 0 = 0 := Nat.mod_one n
    refine ⟨(Nat.div_one n).symm, ?_, ?_⟩
    · rw [hmod]
      exact iff_of_false Bool.false_ne_true (by decide)
    · rw [hmod]
      exact iff_of_false Bool.false_ne_true (by decide)
  | succ k ih => exact ih.succ

theorem ShiftedRight.roundedMantissa_eq {n k : Nat} {m : ExtendedMantissa}
    (h : ShiftedRight n k m) : m.roundedMantissa = roundDiv n (2 ^ k) := by
  obtain ⟨hmantissa, hround, hsticky⟩ := h
  rcases m with ⟨mantissa, round, sticky⟩
  obtain rfl : mantissa = n / 2 ^ k := hmantissa
  cases round <;> cases sticky <;>
    simp only [ExtendedMantissa.roundedMantissa, ExtendedMantissa.accuracy,
      Accuracy.roundToNearestEven, roundDiv, true_iff, false_iff, Bool.false_eq_true]
      at hround hsticky ⊢ <;>
    split_ifs <;> omega

/-! ## Integral doubles -/

/-- The double of an integer of 53 bits of precision. -/
def integral (sign : Sign) (v : Nat) : UnpackedFloat :=
  if h : 0 < v * 2 ^ 52 / 2 ^ v.log2 then .finite sign (v * 2 ^ 52 / 2 ^ v.log2) (v.log2 - 52) h
  else .zero sign

theorem mantissa_pos {v : Nat} (hv : v ≠ 0) : 0 < v * 2 ^ 52 / 2 ^ v.log2 :=
  Nat.div_pos (Nat.le_trans (Nat.log2_self_le hv) (Nat.le_mul_of_pos_right v (by decide)))
    (Nat.two_pow_pos _)

theorem log2_mantissa {v : Nat} (hv : v ≠ 0) : (v * 2 ^ 52 / 2 ^ v.log2).log2 = 52 := by
  have hlog := log2_mul_two_pow hv 52
  have hfull := log2_div_two_pow (n := v * 2 ^ 52) (by omega)
  rwa [hlog, Nat.add_sub_cancel] at hfull

theorem integral_eq_finite {v q k : Nat} (sign : Sign) (h : v * 2 ^ 52 = q * 2 ^ k)
    (hq : 52 ≤ q.log2) (hpos : 0 < q / 2 ^ (q.log2 - 52)) :
    integral sign v =
      .finite sign (q / 2 ^ (q.log2 - 52)) ((k : Int) - 52 + (q.log2 - 52 : Nat)) hpos := by
  have hq₀ : q ≠ 0 := ne_zero_of_le_log2 hq
  have hv₀ : v ≠ 0 := by
    rintro rfl
    rw [Nat.zero_mul, eq_comm, Nat.mul_eq_zero] at h
    exact h.elim hq₀ (Nat.ne_of_gt (Nat.two_pow_pos k))
  have hlog : v.log2 = (q.log2 - 52) + k := by
    have hsame := congrArg Nat.log2 h
    rw [log2_mul_two_pow hv₀, log2_mul_two_pow hq₀] at hsame
    omega
  have hmantissa : v * 2 ^ 52 / 2 ^ v.log2 = q / 2 ^ (q.log2 - 52) := by
    rw [h, hlog, Nat.pow_add, Nat.mul_div_mul_right _ _ (Nat.two_pow_pos k)]
  rw [integral, dif_pos (mantissa_pos hv₀)]
  exact finite_congr hmantissa (by omega)

theorem neg_integral (sign : Sign) (v : Nat) : (integral sign v).neg = integral (-sign) v := by
  rcases Nat.eq_zero_or_pos v with rfl | hpos
  · rfl
  · have hmantissa := mantissa_pos (Nat.ne_of_gt hpos)
    rw [integral, integral, dif_pos hmantissa, dif_pos hmantissa]
    rfl

theorem unpack_pack_integral (sign : Sign) {v : Nat} (h : v.log2 ≤ 65) :
    (Float.Model.pack (integral sign v)).unpack = integral sign v := by
  rcases Nat.eq_zero_or_pos v with rfl | hpos
  · cases sign <;> rfl
  · have hv : v ≠ 0 := Nat.ne_of_gt hpos
    rw [integral, dif_pos (mantissa_pos hv)]
    exact unpack_pack_finite (log2_mantissa hv) (by omega) (by omega)

/-! ## Rounding -/

theorem full_of_mul_eq {n q : Nat} (hn : n ≠ 0)
    (h : q * 2 ^ n.log2 = nearestNat n * 2 ^ 52) : 52 ≤ q.log2 := by
  have hleast := Nat.mul_le_mul_right (2 ^ 52) (two_pow_log2_le_nearestNat hn)
  rw [← h, Nat.mul_comm] at hleast
  have hq := Nat.le_of_mul_le_mul_right hleast (Nat.two_pow_pos _)
  exact (Nat.le_log2 (by omega)).2 hq

/-- To round a number that has been shifted to the left is to round the number. -/
theorem roundWithAccuracy_eq_integral {n s : Nat} (sign : Sign) (hn : n ≠ 0)
    (hs : 52 ≤ n.log2 + s) :
    roundWithAccuracy Format.binary64 sign (n * 2 ^ s) (-s) .exact =
      integral sign (nearestNat n) := by
  have hvalue := roundDiv_mul_two_pow hs
  have hlog := log2_mul_two_pow hn s
  have hfirst := shiftToTargetExponent_eq (m := n * 2 ^ s) (e := -s) (by omega) (by omega) .exact
  rw [hlog] at hfirst
  have hround := (shiftedRight (n * 2 ^ s) (n.log2 + s - 52)).roundedMantissa_eq
  generalize roundDiv (n * 2 ^ s) (2 ^ (n.log2 + s - 52)) = q at hvalue hround
  -- The rounded mantissa may have one bit too many, which is zero then.
  have hq := full_of_mul_eq hn hvalue
  have hsecond := shiftToTargetExponent_eq (m := q) (e := -s + (n.log2 + s - 52 : Nat)) hq
    (by omega) .exact
  have hmantissa : (ExtendedMantissa.ofMantissaAndAccuracy q .exact >>> (q.log2 - 52)).mantissa =
      q / 2 ^ (q.log2 - 52) := by
    rw [mantissa_shiftRight, mantissa_ofMantissaAndAccuracy]
  have hne : q / 2 ^ (q.log2 - 52) ≠ 0 := ne_zero_of_le_log2 (by rw [log2_div_two_pow hq])
  rw [integral_eq_finite sign hvalue.symm hq (Nat.pos_of_ne_zero hne)]
  unfold roundWithAccuracy
  rw [hfirst]
  dsimp only
  rw [hround, hsecond]
  dsimp only
  rw [dif_neg (hmantissa ▸ hne)]
  exact finite_congr hmantissa (by omega)

theorem round_eq_integral {n : Nat} (sign : Sign) (hn : n ≠ 0) :
    UnpackedFloat.round Format.binary64 sign n 0 = integral sign (nearestNat n) := by
  have hshift : 52 ≤ n.log2 + (0 - Format.binary64.targetExponent (totalExponent n 0)).toNat := by
    simp only [targetExponent_eq, totalExponent]
    omega
  unfold UnpackedFloat.round decreaseExponent
  dsimp only
  generalize (0 - Format.binary64.targetExponent (totalExponent n 0)).toNat = shift at *
  rw [Nat.shiftLeft_eq, Int.zero_sub]
  exact roundWithAccuracy_eq_integral sign hn hshift

theorem mul_one_integral {n : Nat} (hn : n ≠ 0) (hsmall : n < 2 ^ 53) :
    mul Format.binary64 (integral .positive n) (.finite .positive (2 ^ 52) (-52) (by decide)) =
      integral .positive (nearestNat n) := by
  have hlog := (Nat.log2_lt hn).2 hsmall
  have hmantissa : n * 2 ^ 52 / 2 ^ n.log2 = n * 2 ^ (52 - n.log2) := by
    have hsplit : 2 ^ 52 = 2 ^ (52 - n.log2) * 2 ^ n.log2 := by
      rw [← Nat.pow_add, Nat.sub_add_cancel (Nat.le_of_lt_succ hlog)]
    rw [hsplit, ← Nat.mul_assoc, Nat.mul_div_cancel _ (Nat.two_pow_pos _)]
  have hexponent : (n.log2 - 52 + -52 : Int) = -(52 - n.log2 + 52 : Nat) := by omega
  rw [integral, dif_pos (mantissa_pos hn)]
  change roundWithAccuracy Format.binary64 .positive (n * 2 ^ 52 / 2 ^ n.log2 * 2 ^ 52)
    (n.log2 - 52 + -52) .exact = _
  rw [hmantissa, Nat.mul_assoc, ← Nat.pow_add, hexponent]
  exact roundWithAccuracy_eq_integral .positive hn (by omega)

/-! ## Conversion -/

theorem log2_nearestNat_le {n : Nat} (h : n < 2 ^ 64) : (nearestNat n).log2 ≤ 65 := by
  have hle := nearestNat_le (Nat.le_of_lt h) (unit_dvd_two_pow (log2_le_of_lt h))
  exact log2_le_of_lt (by omega)

theorem unpack_toFloat {n : UInt64} (hn : n.toNat ≠ 0) :
    n.toFloat.toModel.unpack = integral .positive (nearestNat n.toNat) := by
  have hround : UnpackedFloat.ofUInt64 Format.binary64 n =
      integral .positive (nearestNat n.toNat) := by
    unfold UnpackedFloat.ofUInt64 UnpackedFloat.ofNat UnpackedFloat.ofInt UnpackedFloat.normalize
    rw [Int.compare_eq_gt.2 (by omega), Int.toNat_natCast]
    exact round_eq_integral .positive hn
  change (Float.Model.pack (UnpackedFloat.ofUInt64 Format.binary64 n)).unpack = _
  rw [hround, unpack_pack_integral .positive (log2_nearestNat_le n.toNat_lt)]

/-- Small integers are converted exactly, and then multiplied by one. -/
theorem unpack_ofNat_of_lt {n : Nat} (hn : n ≠ 0) (hsmall : n < 2 ^ 53) :
    (Float.ofNat n).toModel.unpack = integral .positive (nearestNat n) := by
  have hword : n.toUInt64.toNat = n := Nat.mod_eq_of_lt (by omega)
  have hdouble : n.toUInt64.toFloat.toModel.unpack = integral .positive n := by
    rw [unpack_toFloat (hword.symm ▸ hn), hword, nearestNat_of_le (Nat.le_of_lt hsmall)]
  have hone : Float.exactlyRepresentablePowersOfTen[0].toModel.unpack =
      .finite .positive (2 ^ 52) (-52) (by decide) := rfl
  change (Float.ofScientific n false 0).toModel.unpack = _
  unfold Float.ofScientific
  rw [dif_pos ⟨hsmall, by decide⟩]
  change (Float.Model.pack (mul Format.binary64 n.toUInt64.toFloat.toModel.unpack
    Float.exactlyRepresentablePowersOfTen[0].toModel.unpack)).unpack = _
  rw [hdouble, hone, mul_one_integral hn hsmall]
  exact unpack_pack_integral .positive (log2_nearestNat_le (by omega))

/-- Large integers are rounded in one step. -/
theorem unpack_ofNat_of_le {n : Nat} (hlarge : 2 ^ 53 ≤ n) (h : n < 2 ^ 64) :
    (Float.ofNat n).toModel.unpack = integral .positive (nearestNat n) := by
  have hn : n ≠ 0 := by omega
  have hround := roundWithAccuracy_eq_integral (s := 53) .positive hn (by omega)
  change (Float.ofScientific n false 0).toModel.unpack = _
  rw [toModel_ofScientific (by omega) (by decide) (Nat.shiftLeft_pos_iff.2 (by omega))]
  change (Float.Model.pack (roundWithAccuracy Format.binary64 .positive (n <<< 53 * 1) (-53)
    .exact)).unpack = _
  rw [Nat.mul_one, Nat.shiftLeft_eq]
  exact (congrArg (fun u => (Float.Model.pack u).unpack) hround).trans
    (unpack_pack_integral .positive (log2_nearestNat_le h))

theorem unpack_ofNat {n : Nat} (h : n < 2 ^ 64) :
    (Float.ofNat n).toModel.unpack = integral .positive (nearestNat n) := by
  rcases Nat.eq_zero_or_pos n with rfl | hpos
  · rfl
  · rcases Nat.lt_or_ge n (2 ^ 53) with hsmall | hlarge
    · exact unpack_ofNat_of_lt (Nat.ne_of_gt hpos) hsmall
    · exact unpack_ofNat_of_le hlarge h

/-- The double of an integer of 53 bits of precision, with its sign. -/
def signedIntegral (v : Int) : UnpackedFloat :=
  integral (if v < 0 then .negative else .positive) v.natAbs

/-- The double of an integer is the double of the nearest one of 53 bits of precision. -/
theorem unpack_ofInt {n : Int} (h : n.natAbs < 2 ^ 64) :
    (Float.ofInt n).toModel.unpack = signedIntegral (nearest n) := by
  cases n with
  | ofNat n =>
    change (Float.ofNat n).toModel.unpack = signedIntegral (nearest (n : Int))
    rw [unpack_ofNat (n := n) h, nearest_natCast, signedIntegral, if_neg (by omega),
      Int.natAbs_natCast]
  | negSucc n =>
    have hn : n + 1 < 2 ^ 64 := h
    have hneg : nearest (Int.negSucc n) < 0 := by
      have hle := nearest_mono (show Int.negSucc n ≤ -1 by omega)
      rw [nearest_of_natAbs_le (n := -1) (by decide)] at hle
      omega
    change (Float.Model.pack (Float.ofNat (n + 1)).toModel.unpack.neg).unpack = _
    rw [unpack_ofNat hn, neg_integral, unpack_pack_integral _ (log2_nearestNat_le hn),
      signedIntegral, if_pos hneg, natAbs_nearest]
    rfl

end Blockwise.Binary64
