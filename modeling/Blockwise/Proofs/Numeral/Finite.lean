import Mathlib.Algebra.Group.Int.Defs
import Mathlib.Algebra.Group.Nat.Defs
import Blockwise.Numeral.Binary64

/-!
# Words are finite doubles

Every 64-bit word, signed or not, is rounded to a finite double
(`isFinite_ofInt`). A double goes through several roundings on its way, so the
proof follows a bound through all of them: `Below e u` says that `u` is finite
and of a magnitude below `2 ^ e`. Rounding, packing and multiplication raise the
exponent of the bound by a fixed amount. The amounts are generous, as a double
may be as large as `2 ^ 1023`.
-/

namespace Blockwise.Binary64

open Float.Model
open Float.Model.UnpackedFloat

/-- A number whose magnitude is below `2 ^ e`. -/
def Below (e : Int) : UnpackedFloat → Prop
  | .zero _ => True
  | .finite _ mantissa exponent _ => ∃ bits : Nat, mantissa < 2 ^ bits ∧ exponent + bits ≤ e
  | .infinity _ | .notANumber => False

theorem Below.isFinite {e : Int} {u : UnpackedFloat} (h : Below e u) : u.isFinite = true := by
  cases u with
  | zero | finite => rfl
  | infinity | notANumber => exact h.elim

theorem Below.neg {e : Int} {u : UnpackedFloat} (h : Below e u) : Below e u.neg := by
  cases u with
  | zero | finite => exact h
  | infinity | notANumber => exact h.elim

/-! ## Rounding -/

theorem targetExponent_eq (total : Int) :
    Format.binary64.targetExponent total = max (total - 53) (-1074) := rfl

theorem mantissa_shiftRight (m : ExtendedMantissa) (k : Nat) :
    (m >>> k).mantissa = m.mantissa / 2 ^ k := by
  induction k with
  | zero => exact (Nat.div_one _).symm
  | succ k ih =>
    change (m >>> k).mantissa / 2 = _
    rw [ih, Nat.div_div_eq_div_mul, Nat.pow_succ]

theorem mantissa_ofMantissaAndAccuracy (mantissa : Nat) (accuracy : Accuracy) :
    (ExtendedMantissa.ofMantissaAndAccuracy mantissa accuracy).mantissa = mantissa := by
  rcases accuracy with _ | _ | _ | _ <;> rfl

theorem roundedMantissa_le (m : ExtendedMantissa) : m.roundedMantissa ≤ m.mantissa + 1 := by
  rcases m with ⟨mantissa, round, sticky⟩
  cases round <;> cases sticky <;>
    simp only [ExtendedMantissa.roundedMantissa, ExtendedMantissa.accuracy,
      Accuracy.roundToNearestEven] <;> omega

theorem log2_le_of_lt {n bits : Nat} (h : n < 2 ^ bits) : n.log2 ≤ bits := by
  rcases Nat.eq_zero_or_pos n with rfl | hpos
  · exact Nat.zero_le bits
  · exact Nat.le_of_lt ((Nat.log2_lt (Nat.ne_of_gt hpos)).2 h)

theorem div_lt_two_pow_sub {n bits : Nat} (h : n < 2 ^ bits) (k : Nat) :
    n / 2 ^ k < 2 ^ (bits - k) := by
  refine Nat.div_lt_of_lt_mul (Nat.lt_of_lt_of_le h ?_)
  rw [← Nat.pow_add]
  exact Nat.pow_le_pow_right (by decide) (by omega)

/-- The shift to the target exponent leaves a number below the same power of two. -/
theorem shift_below {mantissa bits : Nat} {exponent e : Int} (hbits : mantissa < 2 ^ bits)
    (he : exponent + bits ≤ e) (hleast : -1074 ≤ e) (accuracy : Accuracy) :
    ∃ bits' : Nat,
      (shiftToTargetExponent Format.binary64 mantissa exponent accuracy).1.mantissa < 2 ^ bits' ∧
        (shiftToTargetExponent Format.binary64 mantissa exponent accuracy).2 + bits' ≤ e := by
  have hlog := log2_le_of_lt hbits
  unfold shiftToTargetExponent shiftToExponent
  dsimp only
  rw [mantissa_shiftRight, mantissa_ofMantissaAndAccuracy]
  refine ⟨_, div_lt_two_pow_sub hbits _, ?_⟩
  simp only [targetExponent_eq, totalExponent]
  omega

theorem below_roundWithAccuracy {mantissa bits : Nat} {exponent e : Int} (sign : Sign)
    (hbits : mantissa < 2 ^ bits) (he : exponent + bits ≤ e) (hleast : -1074 ≤ e)
    (accuracy : Accuracy) :
    Below (e + 1) (roundWithAccuracy Format.binary64 sign mantissa exponent accuracy) := by
  obtain ⟨bits₁, hbits₁, he₁⟩ := shift_below hbits he hleast accuracy
  unfold roundWithAccuracy
  dsimp only
  generalize shiftToTargetExponent Format.binary64 mantissa exponent accuracy = first at *
  -- Rounding up may take one more bit.
  have hrounded : first.1.roundedMantissa < 2 ^ (bits₁ + 1) := by
    have := roundedMantissa_le first.1
    omega
  have hexponent : first.2 + (bits₁ + 1 : Nat) ≤ e + 1 := by omega
  obtain ⟨bits₂, hbits₂, he₂⟩ := shift_below hrounded hexponent (by omega) .exact
  generalize shiftToTargetExponent Format.binary64 _ _ .exact = final at *
  by_cases hzero : final.1.mantissa = 0
  · rw [dif_pos hzero]
    trivial
  · rw [dif_neg hzero]
    exact ⟨bits₂, hbits₂, he₂⟩

theorem below_mul {e₁ e₂ : Int} {u₁ u₂ : UnpackedFloat} (h₁ : Below e₁ u₁) (h₂ : Below e₂ u₂)
    (hleast : -1074 ≤ e₁ + e₂) : Below (e₁ + e₂ + 1) (mul Format.binary64 u₁ u₂) := by
  cases u₁ with
  | infinity | notANumber => exact h₁.elim
  | zero sign₁ =>
    cases u₂ with
    | infinity | notANumber => exact h₂.elim
    | zero | finite => trivial
  | finite sign₁ mantissa₁ exponent₁ _ =>
    cases u₂ with
    | infinity | notANumber => exact h₂.elim
    | zero => trivial
    | finite sign₂ mantissa₂ exponent₂ _ =>
      obtain ⟨bits₁, hbits₁, he₁⟩ := h₁
      obtain ⟨bits₂, hbits₂, he₂⟩ := h₂
      have hbits : mantissa₁ * mantissa₂ < 2 ^ (bits₁ + bits₂) := by
        rw [Nat.pow_add]
        exact Nat.mul_lt_mul'' hbits₁ hbits₂
      exact below_roundWithAccuracy _ hbits (by push_cast; omega) hleast .exact

/-! ## Packing -/

theorem exponentBias_eq : Format.binary64.exponentBias = 1023 := rfl

theorem below_unpack_packComponents {e : Int} (sign : Sign) (exponent : BitVec 11)
    (mantissa : BitVec 52) (hfinite : exponent ≠ -1#11) (he : (exponent.toNat : Int) - 1074 ≤ e) :
    Below (e + 53)
      (unpack Format.binary64 (packComponents Format.binary64 sign exponent mantissa)) := by
  have hbias := exponentBias_eq
  unfold UnpackedFloat.unpack
  dsimp only
  rw [unpackExponent_packComponents, if_neg hfinite]
  by_cases hsmall : exponent = 0#11
  · rw [if_pos hsmall]
    by_cases hzero : mantissa = 0#52
    · rw [dif_pos (unpackMantissa_packComponents.trans hzero)]
      trivial
    · rw [dif_neg fun h => hzero (unpackMantissa_packComponents.symm.trans h)]
      exact ⟨52, BitVec.isLt _, by omega⟩
  · rw [if_neg hsmall]
    exact ⟨53, BitVec.isLt _, by omega⟩

theorem not_overflow {exponent : Int} (h : exponent ≤ 971) :
    ¬ 2 ^ Format.binary64.exponentBits ≤ (exponent + Format.binary64.exponentBias +
      Format.binary64.mantissaBitsWithoutImplicit).toNat + 1 := by
  change ¬ 2048 ≤ (exponent + 1023 + 52).toNat + 1
  omega

theorem biasedExponent_ne_infinity {exponent : Int} (h : exponent ≤ 971) :
    BitVec.ofNat 11 (exponent + 1023 + 52).toNat ≠ -1#11 := by
  intro hinfinite
  have hbiased := congrArg BitVec.toNat hinfinite
  rw [BitVec.toNat_ofNat, Nat.mod_eq_of_lt (by omega)] at hbiased
  simp at hbiased
  omega

theorem below_unpack_pack_finite {exponent e : Int} (sign : Sign) {mantissa : Nat}
    (hpos : 0 < mantissa) (hmost : exponent ≤ 971) (he : exponent < e) (hleast : -1074 ≤ e) :
    Below (e + 53) (Float.Model.pack (.finite sign mantissa exponent hpos)).unpack := by
  change Below _ (unpack Format.binary64 (pack Format.binary64 _))
  unfold UnpackedFloat.pack
  dsimp only
  rw [if_neg (not_overflow hmost)]
  split
  · have hbiased : (BitVec.ofNat 11 (exponent + 1023 + 52).toNat).toNat =
        (exponent + 1023 + 52).toNat := by
      rw [BitVec.toNat_ofNat, Nat.mod_eq_of_lt (by omega)]
    exact below_unpack_packComponents sign (.ofNat 11 (exponent + 1023 + 52).toNat) _
      (biasedExponent_ne_infinity hmost) (by omega)
  · exact below_unpack_packComponents sign _ _ (by decide) (by simp; omega)

/-- A number that is not too large is still finite in its packed form. -/
theorem below_unpack_pack {e : Int} {u : UnpackedFloat} (h : Below e u) (hleast : -1074 ≤ e)
    (hmost : e ≤ 900) : Below (e + 53) (Float.Model.pack u).unpack := by
  cases u with
  | infinity | notANumber => exact h.elim
  | zero sign => exact below_unpack_packComponents sign 0 0 (by decide) (by simp; omega)
  | finite sign mantissa exponent mantissa_pos =>
    obtain ⟨bits, hbits, he⟩ := h
    have hpos : 0 < bits := by
      rcases Nat.eq_zero_or_pos bits with rfl | hpos
      · omega
      · exact hpos
    exact below_unpack_pack_finite sign mantissa_pos (by omega) (by omega) hleast

/-! ## Conversion -/

/-- A word of at most 64 bits is rounded to a number that is not too large. -/
theorem below_round {n : Nat} (h : n < 2 ^ 64) :
    Below 65 (UnpackedFloat.round Format.binary64 .positive n 0) := by
  unfold UnpackedFloat.round decreaseExponent
  dsimp only
  generalize (0 - Format.binary64.targetExponent (totalExponent n 0)).toNat = shift
  have hbits : n <<< shift < 2 ^ (64 + shift) := by
    rw [Nat.shiftLeft_eq, Nat.pow_add]
    exact Nat.mul_lt_mul_of_pos_right h (Nat.two_pow_pos _)
  exact below_roundWithAccuracy (e := 64) _ hbits (by omega) (by decide) .exact

theorem below_toFloat (n : UInt64) : Below 118 n.toFloat.toModel.unpack := by
  refine below_unpack_pack (e := 65) ?_ (by decide) (by decide)
  unfold UnpackedFloat.ofUInt64 UnpackedFloat.ofNat UnpackedFloat.ofInt UnpackedFloat.normalize
  split
  · next hneg => exact absurd (Int.compare_eq_lt.1 hneg) (by omega)
  · trivial
  · rw [Int.toNat_natCast]
    exact below_round n.toNat_lt

theorem below_one : Below 1 Float.exactlyRepresentablePowersOfTen[0].toModel.unpack := by
  have hone : Float.exactlyRepresentablePowersOfTen[0].toModel.unpack =
      .finite .positive (2 ^ 52) (-52) (by decide) := rfl
  rw [hone]
  exact ⟨53, by decide, by decide⟩

/-- A decimal that is not looked up is the product of an integer and a power of ten. -/
theorem toModel_ofScientific {n e : Nat} (hlarge : ¬ (n < 2 ^ 53 ∧ e ≤ 22)) (he : e ≤ 308)
    (hpos : 0 < n <<< 53) :
    (Float.ofScientific n false e).toModel =
      Float.Model.pack (mul Format.binary64 (.finite .positive (n <<< 53) (-53) hpos)
        (.finite .positive (10 ^ e) 0 (Nat.pow_pos (by decide)))) := by
  have hne : n ≠ 0 := by
    rintro rfl
    exact absurd hpos (by decide)
  unfold Float.ofScientific
  rw [dif_neg hlarge]
  change Float.Model.pack (UnpackedFloat.ofScientific Format.binary64 n (Int.ofNat e)) = _
  have hmost : ¬ Int.ofNat e > 2 ^ Format.binary64.exponentBits := by
    change ¬ (e : Int) > 2048
    omega
  have hleast : ¬ Int.ofNat e < -((2 ^ Format.binary64.exponentBits : Int) + n.log2) := by
    change ¬ (e : Int) < -(2048 + (n.log2 : Int))
    omega
  have hnonneg : 0 ≤ Int.ofNat e := Int.natCast_nonneg e
  unfold UnpackedFloat.ofScientific
  rw [dif_neg hne, if_neg hmost, if_neg hleast, if_pos hnonneg]
  rfl

theorem below_ofNat {n : Nat} (h : n < 2 ^ 64) : Below 173 (Float.ofNat n).toModel.unpack := by
  -- The conversion multiplies by a power of ten, which is one here.
  have hmul {u₁ u₂ : UnpackedFloat} (h₁ : Below 118 u₁) (h₂ : Below 1 u₂) :
      Below 173 (Float.Model.pack (mul Format.binary64 u₁ u₂)).unpack :=
    below_unpack_pack (below_mul h₁ h₂ (by decide)) (by decide) (by decide)
  change Below 173 (Float.ofScientific n false 0).toModel.unpack
  by_cases hsmall : n < 2 ^ 53 ∧ 0 ≤ 22
  · unfold Float.ofScientific
    rw [dif_pos hsmall]
    exact hmul (below_toFloat n.toUInt64) below_one
  · have hbits : n <<< 53 < 2 ^ (64 + 53) := by
      rw [Nat.shiftLeft_eq, Nat.pow_add]
      exact Nat.mul_lt_mul_of_pos_right h (Nat.two_pow_pos _)
    have hpos : 0 < n <<< 53 := Nat.shiftLeft_pos_iff.2 (by omega)
    rw [toModel_ofScientific hsmall (by decide) hpos]
    exact hmul ⟨117, hbits, by decide⟩ ⟨1, by decide, by decide⟩

theorem isFinite_ofInt {n : Int} (hleast : -2 ^ 63 ≤ n) (hmost : n < 2 ^ 64) :
    (Float.ofInt n).isFinite = true := by
  cases n with
  | ofNat n => exact (below_ofNat (Int.ofNat_lt.1 hmost)).isFinite
  | negSucc n =>
    have hneg := (below_ofNat (n := n.succ) (by omega)).neg
    exact (below_unpack_pack hneg (by decide) (by decide)).isFinite

end Blockwise.Binary64
