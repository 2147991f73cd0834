import Blockwise.Json.Token
import Blockwise.Proofs.Numeral.Finite

/-!
# Scaled words are finite doubles

The double of a JSON number is a word that is multiplied or divided by a power of
ten. A product that is too large is refused, and a quotient cannot be too large:
each divisor is at least one, since it has a full mantissa and its exponent is
not too small (`Full`). So every magnitude that is read is finite
(`isFinite_of_magnitude?`).
-/

namespace Blockwise.Binary64

open Float.Model
open Float.Model.UnpackedFloat

theorem Below.mono {e e' : Int} {u : UnpackedFloat} (h : Below e u) (he : e ≤ e') :
    Below e' u := by
  cases u with
  | zero => trivial
  | finite =>
    obtain ⟨bits, hbits, hexponent⟩ := h
    exact ⟨bits, hbits, Int.le_trans hexponent he⟩
  | infinity | notANumber => exact h.elim

/-! ## Full mantissas -/

/-- A number that uses all bits of its mantissa, and whose exponent is at least `k`. -/
inductive Full (k : Int) : UnpackedFloat → Prop
  | finite (sign : Sign) {mantissa : Nat} {exponent : Int} (mantissa_pos : 0 < mantissa)
      (log2_eq : mantissa.log2 = 52) (le_exponent : k ≤ exponent) :
      Full k (.finite sign mantissa exponent mantissa_pos)

theorem full_finite_iff {k : Int} {sign : Sign} {mantissa : Nat} {exponent : Int}
    {mantissa_pos : 0 < mantissa} :
    Full k (.finite sign mantissa exponent mantissa_pos) ↔ mantissa.log2 = 52 ∧ k ≤ exponent := by
  constructor
  · intro h
    cases h with
    | finite _ _ log2_eq le_exponent => exact ⟨log2_eq, le_exponent⟩
  · rintro ⟨hlog, hk⟩
    exact .finite sign mantissa_pos hlog hk

instance (k : Int) : (u : UnpackedFloat) → Decidable (Full k u)
  | .finite .. => decidable_of_iff _ full_finite_iff.symm
  | .zero _ | .infinity _ | .notANumber => isFalse nofun

theorem Full.mono {k k' : Int} {u : UnpackedFloat} (h : Full k u) (hk : k' ≤ k) : Full k' u := by
  obtain ⟨sign, mantissa_pos, hlog, hle⟩ := h
  exact .finite sign mantissa_pos hlog (Int.le_trans hk hle)

theorem Full.isFinite {k : Int} {u : UnpackedFloat} (h : Full k u) : u.isFinite = true := by
  cases h
  rfl

theorem log2_eq_of_bounds {n : Nat} (hleast : 2 ^ 52 ≤ n) (hmost : n < 2 ^ 53) : n.log2 = 52 :=
  (Nat.log2_eq_iff (by omega)).2 ⟨hleast, hmost⟩

theorem ne_zero_of_le_log2 {n : Nat} (h : 52 ≤ n.log2) : n ≠ 0 := by
  rintro rfl
  exact absurd h (by decide)

theorem log2_div_two_pow {n : Nat} (h : 52 ≤ n.log2) : (n / 2 ^ (n.log2 - 52)).log2 = 52 := by
  have hsum : 52 + (n.log2 - 52) = n.log2 := by omega
  refine log2_eq_of_bounds ?_ ?_
  · rw [Nat.le_div_iff_mul_le (Nat.two_pow_pos _), ← Nat.pow_add, hsum]
    exact Nat.log2_self_le (ne_zero_of_le_log2 h)
  · have := div_lt_two_pow_sub n.lt_log2_self (n.log2 - 52)
    rwa [show n.log2 + 1 - (n.log2 - 52) = 53 by omega] at this

theorem shiftToTargetExponent_eq {m : Nat} {e : Int} (hfull : 52 ≤ m.log2)
    (he : -1022 ≤ e + m.log2) (accuracy : Accuracy) :
    shiftToTargetExponent Format.binary64 m e accuracy =
      (ExtendedMantissa.ofMantissaAndAccuracy m accuracy >>> (m.log2 - 52),
        e + (m.log2 - 52 : Nat)) := by
  have hshift : (Format.binary64.targetExponent (totalExponent m e) - e).toNat = m.log2 - 52 := by
    simp only [targetExponent_eq, totalExponent]
    omega
  unfold shiftToTargetExponent shiftToExponent
  dsimp only
  rw [hshift]

theorem shift_full {mantissa : Nat} {exponent k : Int} (hfull : 52 ≤ mantissa.log2)
    (he : k + 52 ≤ exponent + mantissa.log2) (hleast : -1074 ≤ k) (accuracy : Accuracy) :
    (shiftToTargetExponent Format.binary64 mantissa exponent accuracy).1.mantissa.log2 = 52 ∧
      k ≤ (shiftToTargetExponent Format.binary64 mantissa exponent accuracy).2 := by
  rw [shiftToTargetExponent_eq hfull (by omega)]
  dsimp only
  rw [mantissa_shiftRight, mantissa_ofMantissaAndAccuracy]
  exact ⟨log2_div_two_pow hfull, by omega⟩

theorem le_roundedMantissa (m : ExtendedMantissa) : m.mantissa ≤ m.roundedMantissa := by
  rcases m with ⟨mantissa, round, sticky⟩
  cases round <;> cases sticky <;>
    simp only [ExtendedMantissa.roundedMantissa, ExtendedMantissa.accuracy,
      Accuracy.roundToNearestEven] <;> omega

theorem full_roundWithAccuracy {mantissa : Nat} {exponent k : Int} (sign : Sign)
    (hfull : 52 ≤ mantissa.log2) (he : k + 52 ≤ exponent + mantissa.log2) (hleast : -1074 ≤ k)
    (accuracy : Accuracy) :
    Full k (roundWithAccuracy Format.binary64 sign mantissa exponent accuracy) := by
  obtain ⟨hfull₁, he₁⟩ := shift_full hfull he hleast accuracy
  unfold roundWithAccuracy
  dsimp only
  generalize shiftToTargetExponent Format.binary64 mantissa exponent accuracy = first at *
  have hrounded : 52 ≤ first.1.roundedMantissa.log2 := by
    have hne : first.1.mantissa ≠ 0 := ne_zero_of_le_log2 (by omega)
    have hleast : 2 ^ 52 ≤ first.1.mantissa := (Nat.le_log2 hne).1 (by omega)
    have hle := le_roundedMantissa first.1
    exact (Nat.le_log2 (by omega)).2 (by omega)
  have hexponent : k + 52 ≤ first.2 + first.1.roundedMantissa.log2 := by omega
  obtain ⟨hfull₂, he₂⟩ := shift_full hrounded hexponent hleast .exact
  rw [dif_neg (ne_zero_of_le_log2 (by omega))]
  exact .finite sign _ hfull₂ he₂

theorem finite_congr {sign : Sign} {m m' : Nat} {e e' : Int} {h : 0 < m} {h' : 0 < m'}
    (hm : m = m') (he : e = e') :
    UnpackedFloat.finite sign m e h = UnpackedFloat.finite sign m' e' h' := by
  subst hm he
  rfl

theorem sign_packComponents (sign : Sign) (exponent : BitVec 11) (mantissa : BitVec 52) :
    Sign.ofBitVec (unpackSign (packComponents Format.binary64 sign exponent mantissa)) = sign := by
  have hbit : unpackSign (packComponents Format.binary64 sign exponent mantissa) =
      BitVec.extractLsb' 63 1 (sign.toBitVec ++ exponent ++ mantissa) := rfl
  rw [hbit, BitVec.extractLsb'_append_eq_of_le (by decide),
    BitVec.extractLsb'_append_eq_of_le (by decide)]
  cases sign <;> rfl

theorem toNat_append_mantissa {mantissa : Nat} (hfull : mantissa.log2 = 52) (h : 0 < mantissa) :
    (1#1 ++ BitVec.ofNat 52 mantissa).toNat = mantissa := by
  obtain ⟨hleast, hmost⟩ := (Nat.log2_eq_iff (Nat.ne_of_gt h)).1 hfull
  rw [BitVec.toNat_append, BitVec.toNat_ofNat, ← Nat.shiftLeft_add_eq_or_of_lt (by omega)]
  change 2 ^ 52 + mantissa % 2 ^ 52 = mantissa
  omega

theorem unpack_packComponents (sign : Sign) {exponent : BitVec 11} {mantissa : BitVec 52} {m : Nat}
    (hfinite : exponent ≠ -1#11) (hnormal : exponent ≠ 0#11) (hm : (1#1 ++ mantissa).toNat = m)
    (hpos : 0 < m) :
    unpack Format.binary64 (packComponents Format.binary64 sign exponent mantissa) =
      .finite sign m ((exponent.toNat : Int) - 1075) hpos := by
  unfold UnpackedFloat.unpack
  dsimp only
  rw [unpackExponent_packComponents, if_neg hfinite, if_neg hnormal, sign_packComponents]
  refine finite_congr ?_ rfl
  rw [unpackMantissa_packComponents]
  exact hm

theorem unpack_pack_finite {sign : Sign} {mantissa : Nat} {exponent : Int} {h : 0 < mantissa}
    (hfull : mantissa.log2 = 52) (hleast : -1074 ≤ exponent) (hmost : exponent ≤ 971) :
    (Float.Model.pack (.finite sign mantissa exponent h)).unpack =
      .finite sign mantissa exponent h := by
  have hpack : pack Format.binary64 (.finite sign mantissa exponent h) =
      packComponents Format.binary64 sign (.ofNat 11 (exponent + 1023 + 52).toNat)
        (.ofNat 52 mantissa) := by
    unfold UnpackedFloat.pack
    dsimp only
    rw [if_neg (not_overflow hmost), if_pos (by rw [hfull]; rfl)]
    rfl
  have hbiased : (BitVec.ofNat 11 (exponent + 1023 + 52).toNat).toNat =
      (exponent + 1023 + 52).toNat := by
    rw [BitVec.toNat_ofNat, Nat.mod_eq_of_lt (by omega)]
  have hnormal : BitVec.ofNat 11 (exponent + 1023 + 52).toNat ≠ 0#11 := by
    intro hzero
    rw [hzero] at hbiased
    simp at hbiased
    omega
  change unpack Format.binary64 (pack Format.binary64 _) = _
  rw [hpack, unpack_packComponents sign (biasedExponent_ne_infinity hmost) hnormal
    (toNat_append_mantissa hfull h) h]
  exact finite_congr rfl (by omega)

theorem full_unpack_pack {k e : Int} {u : UnpackedFloat} (hfull : Full k u) (hbelow : Below e u)
    (hmost : e ≤ 1024) (hleast : -1074 ≤ k) : Full k (Float.Model.pack u).unpack := by
  obtain ⟨sign, mantissa_pos, hlog, hk⟩ := hfull
  obtain ⟨bits, hbits, he⟩ := hbelow
  have hwidth : 52 < bits := by
    have hlt := (Nat.log2_lt (Nat.ne_of_gt mantissa_pos)).2 hbits
    omega
  rw [unpack_pack_finite hlog (by omega) (by omega)]
  exact .finite sign mantissa_pos hlog hk

/-! ## Powers of ten -/

open Json.Number

theorem full_powerOfTen_of_lt : ∀ n < 23, Full (-52) (powerOfTen n).toModel.unpack := by
  decide +kernel

theorem full_powerOfTen_308 : Full 971 (powerOfTen 308).toModel.unpack := by
  decide +kernel

theorem full_powerOfTen_of_le {n : Nat} (hleast : 23 ≤ n) (hmost : n ≤ 307) :
    Full (-52) (powerOfTen n).toModel.unpack := by
  have hpos : 0 < 10 ^ n := Nat.pow_pos (by decide)
  obtain ⟨bits, hbits, hpower⟩ : ∃ bits ≤ 1020, 10 ^ n < 2 ^ bits :=
    ⟨1020, Nat.le_refl _,
      Nat.lt_of_le_of_lt (Nat.pow_le_pow_right (by decide) hmost) (by decide +kernel)⟩
  have hlog : 53 ≤ (1 <<< 53 * 10 ^ n).log2 := by
    rw [Nat.shiftLeft_eq, Nat.one_mul]
    refine (Nat.le_log2 (Nat.ne_of_gt (Nat.mul_pos (by decide) hpos))).2 ?_
    exact Nat.le_mul_of_pos_right _ hpos
  have hproduct : 1 <<< 53 * 10 ^ n < 2 ^ (53 + bits) := by
    rw [Nat.shiftLeft_eq, Nat.pow_add, Nat.one_mul]
    exact Nat.mul_lt_mul_of_pos_left hpower (Nat.two_pow_pos _)
  have hfull (sign : Sign) :
      Full (-52) (roundWithAccuracy Format.binary64 sign (1 <<< 53 * 10 ^ n) (-53) .exact) :=
    full_roundWithAccuracy sign (by omega) (by omega) (by decide) .exact
  have hbelow (sign : Sign) :
      Below 1021 (roundWithAccuracy Format.binary64 sign (1 <<< 53 * 10 ^ n) (-53) .exact) :=
    below_roundWithAccuracy (e := 1020) sign hproduct (by omega) (by decide) .exact
  change Full (-52) (Float.ofScientific 1 false n).toModel.unpack
  rw [toModel_ofScientific (by omega) (by omega) (by decide)]
  exact full_unpack_pack (hfull _) (hbelow _) (by decide) (by decide)

theorem full_powerOfTen {n : Nat} (h : n ≤ 308) : Full (-52) (powerOfTen n).toModel.unpack := by
  rcases Nat.lt_or_ge n 23 with hsmall | hlarge
  · exact full_powerOfTen_of_lt n hsmall
  · rcases Nat.lt_or_ge n 308 with hlt | hge
    · exact full_powerOfTen_of_le hlarge (Nat.le_of_lt_succ hlt)
    · obtain rfl : n = 308 := Nat.le_antisymm h hge
      exact full_powerOfTen_308.mono (by decide)

/-! ## Quotients -/

/-- A quotient is smaller than its dividend by as many bits as its divisor is larger
than one. -/
theorem below_div {e k : Int} {u₁ u₂ : UnpackedFloat} (h₁ : Below e u₁) (h₂ : Full k u₂)
    (hleast : -1074 ≤ e - (k + 52)) :
    Below (e - (k + 52) + 1) (UnpackedFloat.div Format.binary64 u₁ u₂) := by
  obtain @⟨sign₂, mantissa₂, exponent₂, mantissa_pos₂, hlog₂, hk⟩ := h₂
  cases u₁ with
  | infinity | notANumber => exact h₁.elim
  | zero => trivial
  | finite sign₁ mantissa₁ exponent₁ mantissa_pos₁ =>
    obtain ⟨bits, hbits, he⟩ := h₁
    have hlog₁ := log2_le_of_lt hbits
    -- The dividend is shifted to the left before the mantissas are divided.
    unfold UnpackedFloat.div divCore
    dsimp only
    generalize htarget : min (exponent₁ - exponent₂) (Format.binary64.targetExponent
      (totalExponent mantissa₁ exponent₁ - totalExponent mantissa₂ exponent₂)) = target
    generalize hshift : (exponent₁ - exponent₂ - target).toNat = shift
    have hshifted : mantissa₁ <<< shift < 2 ^ (bits + shift) := by
      rw [Nat.shiftLeft_eq, Nat.pow_add]
      exact Nat.mul_lt_mul_of_pos_right hbits (Nat.two_pow_pos _)
    have hdivisor : 2 ^ 52 ≤ mantissa₂ := (Nat.le_log2 (Nat.ne_of_gt mantissa_pos₂)).1 (by omega)
    have hquotient : mantissa₁ <<< shift / mantissa₂ < 2 ^ (bits + shift - 52) :=
      Nat.lt_of_le_of_lt (Nat.div_le_div_left hdivisor (by decide))
        (div_lt_two_pow_sub hshifted 52)
    refine below_roundWithAccuracy _ hquotient ?_ hleast _
    simp only [targetExponent_eq, totalExponent] at htarget
    omega

/-- Going down by powers of ten never leaves the range of what is finite. -/
theorem isFinite_divideByPower {x : Float} {n : Nat} (h : Below 173 x.toModel.unpack) :
    (divideByPower x n).isFinite = true := by
  fun_induction divideByPower x n with
  | case1 x n hn =>
    have hquotient := below_div h (full_powerOfTen hn) (by decide)
    exact (below_unpack_pack hquotient (by decide) (by decide)).isFinite
  | case2 x n _ hzero => exact h.isFinite
  | case3 x n _ hzero ih =>
    refine ih ?_
    have hquotient := below_div h full_powerOfTen_308 (by decide)
    exact (below_unpack_pack hquotient (by decide) (by decide)).mono (by decide)

/-! ## Products and negation -/

theorem isFinite_unpack_pack_finite {exponent : Int} (sign : Sign) {mantissa : Nat}
    (hpos : 0 < mantissa) (hmost : exponent ≤ 971) :
    (Float.Model.pack (.finite sign mantissa exponent hpos)).unpack.isFinite = true :=
  (below_unpack_pack_finite (e := max 0 (exponent + 1)) sign hpos hmost (by omega)
    (by omega)).isFinite

theorem isFinite_unpack_pack_zero (sign : Sign) :
    (Float.Model.pack (.zero sign)).unpack.isFinite = true :=
  (below_unpack_packComponents (e := 0) sign 0 0 (by decide) (by decide)).isFinite

/-- What is finite becomes infinite when it is packed, or stays finite. -/
theorem isFinite_unpack_pack {u : UnpackedFloat} (hu : u.isFinite = true)
    (h : (Float.Model.pack u).unpack.isInf = false) :
    (Float.Model.pack u).unpack.isFinite = true := by
  cases u with
  | infinity | notANumber => cases hu
  | zero sign => exact isFinite_unpack_pack_zero sign
  | finite sign mantissa exponent mantissa_pos =>
    rcases Int.lt_or_le 971 exponent with hlarge | hmost
    · have hoverflow : 2 ^ Format.binary64.exponentBits ≤ (exponent +
          Format.binary64.exponentBias + Format.binary64.mantissaBitsWithoutImplicit).toNat + 1 := by
        change 2048 ≤ (exponent + 1023 + 52).toNat + 1
        omega
      have hinfinite : (unpack Format.binary64 (pack Format.binary64
          (.finite sign mantissa exponent mantissa_pos))).isInf = true := by
        unfold UnpackedFloat.pack
        dsimp only
        rw [if_pos hoverflow]
        cases sign <;> decide
      exact absurd (hinfinite.symm.trans h) (by decide)
    · exact isFinite_unpack_pack_finite sign mantissa_pos hmost

theorem isFinite_roundWithAccuracy (sign : Sign) (mantissa : Nat) (exponent : Int)
    (accuracy : Accuracy) :
    (roundWithAccuracy Format.binary64 sign mantissa exponent accuracy).isFinite = true :=
  (below_roundWithAccuracy (e := max (-1074) (exponent + (mantissa.log2 + 1 : Nat))) sign
    Nat.lt_log2_self (by omega) (by omega) accuracy).isFinite

theorem isFinite_unpacked_mul {u₁ u₂ : UnpackedFloat} (h₁ : u₁.isFinite = true)
    (h₂ : u₂.isFinite = true) : (mul Format.binary64 u₁ u₂).isFinite = true := by
  cases u₁ with
  | infinity | notANumber => cases h₁
  | zero =>
    cases u₂ with
    | infinity | notANumber => cases h₂
    | zero | finite => rfl
  | finite =>
    cases u₂ with
    | infinity | notANumber => cases h₂
    | zero => rfl
    | finite => exact isFinite_roundWithAccuracy ..

theorem isFinite_mul {x y : Float} (hx : x.isFinite = true) (hy : y.isFinite = true)
    (h : (x * y).isInf = false) : (x * y).isFinite = true :=
  isFinite_unpack_pack (isFinite_unpacked_mul hx hy) h

theorem exponent_le_of_unpack {x : Float.Model} {sign : Sign} {mantissa : Nat} {exponent : Int}
    {mantissa_pos : 0 < mantissa} (h : x.unpack = .finite sign mantissa exponent mantissa_pos) :
    exponent ≤ 971 := by
  have hbias := exponentBias_eq
  change UnpackedFloat.unpack Format.binary64 x.toBits.toBitVec = _ at h
  unfold UnpackedFloat.unpack at h
  dsimp only at h
  by_cases hinfinite : @unpackExponent Format.binary64 x.toBits.toBitVec = -1#11
  · rw [if_pos hinfinite] at h
    by_cases hzero : @unpackMantissa Format.binary64 x.toBits.toBitVec = 0#52
    · rw [if_pos hzero] at h
      cases h
    · rw [if_neg hzero] at h
      cases h
  · have hmost : (@unpackExponent Format.binary64 x.toBits.toBitVec).toNat ≠ 2047 :=
      (BitVec.toNat_ne_iff_ne ..).2 hinfinite
    rw [if_neg hinfinite] at h
    by_cases hsmall : @unpackExponent Format.binary64 x.toBits.toBitVec = 0#11
    · rw [if_pos hsmall] at h
      by_cases hzero : @unpackMantissa Format.binary64 x.toBits.toBitVec = 0#52
      · rw [dif_pos hzero] at h
        cases h
      · rw [dif_neg hzero] at h
        have hbiased := congrArg BitVec.toNat hsmall
        cases h
        change _ = 0 at hbiased
        omega
    · rw [if_neg hsmall] at h
      cases h
      omega

theorem isFinite_neg {x : Float} (h : x.isFinite = true) : (-x).isFinite = true := by
  change (Float.Model.pack x.toModel.unpack.neg).unpack.isFinite = true
  change x.toModel.unpack.isFinite = true at h
  cases hunpack : x.toModel.unpack with
  | infinity | notANumber => rw [hunpack] at h; cases h
  | zero sign => exact isFinite_unpack_pack_zero _
  | finite sign mantissa exponent mantissa_pos =>
    exact isFinite_unpack_pack_finite _ mantissa_pos (exponent_le_of_unpack hunpack)

/-! ## Magnitudes -/

theorem absorb_lt {word : Nat} (h : word < UInt64.size) (digits : List Nat) :
    (absorb word digits).1 < UInt64.size := by
  induction digits generalizing word with
  | nil => exact h
  | cons digit rest ih =>
    rw [absorb]
    split
    · next hfits => exact ih hfits
    · exact h

theorem isFinite_of_scale? {word : Nat} {e : Int} {x : Float} (hword : word < UInt64.size)
    (h : scale? word e = some x) : x.isFinite = true := by
  have hdouble := below_ofNat hword
  unfold scale? at h
  dsimp only at h
  split at h
  · cases h
    exact isFinite_divideByPower hdouble
  · split at h
    · next hn =>
      split at h
      · cases h
      · next hinfinite =>
        cases h
        exact isFinite_mul hdouble.isFinite (full_powerOfTen hn).isFinite
          (Bool.eq_false_iff.2 hinfinite)
    · split at h
      · cases h
        exact hdouble.isFinite
      · cases h

theorem isFinite_of_magnitude? {n : Numeral} {x : Float} (h : magnitude? n = some x) :
    x.isFinite = true := by
  have hword := absorb_lt (absorb_lt (by decide : 0 < UInt64.size) n.whole) n.fractionDigits
  unfold magnitude? at h
  dsimp only at h
  split at h
  · exact isFinite_of_scale? hword h
  · split at h
    · cases h
      decide
    · cases h

end Blockwise.Binary64
