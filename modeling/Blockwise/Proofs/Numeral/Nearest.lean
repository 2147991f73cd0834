import Mathlib.Algebra.Order.Group.Nat
import Mathlib.Tactic.SplitIfs

/-!
# Integers of 53 bits of precision

A double has room for 53 bits. An integer that needs more is rounded to a multiple
of a power of two, its `unit`, and a half goes to the even multiple. `nearest` is
the integer that comes out. It keeps the order (`nearest_mono`), leaves everything
up to `2 ^ 53` as it is (`nearest_of_natAbs_le`), and brings nothing that is larger
below that (`nearest_eq_nearest_iff`).
-/

namespace Blockwise.Binary64

/-! ## Rounded quotients -/

/-- The quotient rounded to an integer; a half goes to the even one. -/
def roundDiv (n d : Nat) : Nat :=
  if 2 * (n % d) < d then n / d
  else if 2 * (n % d) = d then n / d + n / d % 2
  else n / d + 1

theorem div_le_roundDiv (n d : Nat) : n / d ≤ roundDiv n d := by
  unfold roundDiv
  split_ifs <;> omega

theorem roundDiv_le (n d : Nat) : roundDiv n d ≤ n / d + 1 := by
  unfold roundDiv
  split_ifs <;> omega

theorem roundDiv_mul_self {n d : Nat} (hd : 0 < d) (h : d ∣ n) : roundDiv n d * d = n := by
  rw [roundDiv, Nat.mod_eq_zero_of_dvd h, if_pos (by omega), Nat.div_mul_cancel h]

theorem roundDiv_mul_mul {c : Nat} (hc : 0 < c) (n d : Nat) :
    roundDiv (n * c) (d * c) = roundDiv n d := by
  have hlt : 2 * (n % d * c) < d * c ↔ 2 * (n % d) < d := by
    rw [← Nat.mul_assoc, Nat.mul_lt_mul_right hc]
  have heq : 2 * (n % d * c) = d * c ↔ 2 * (n % d) = d := by
    rw [← Nat.mul_assoc, Nat.mul_left_inj (Nat.ne_of_gt hc)]
  simp only [roundDiv, Nat.mul_mod_mul_right, Nat.mul_div_mul_right n d hc, hlt, heq]

theorem roundDiv_mono {n m : Nat} (hnm : n ≤ m) (d : Nat) : roundDiv n d ≤ roundDiv m d := by
  rcases Nat.lt_or_eq_of_le (Nat.div_le_div_right hnm : n / d ≤ m / d) with hlt | heq
  · calc
      roundDiv n d ≤ n / d + 1 := roundDiv_le n d
      _ ≤ m / d := hlt
      _ ≤ roundDiv m d := div_le_roundDiv m d
  · -- With the same quotient, the larger number has the larger remainder.
    have hmod : n % d ≤ m % d := by
      have hn := Nat.div_add_mod n d
      have hm := Nat.div_add_mod m d
      rw [heq] at hn
      omega
    unfold roundDiv
    rw [heq]
    split_ifs <;> omega

/-! ## Natural numbers -/

/-- The distance of two doubles that have as many bits as `n`, or one if that is
less than one. -/
def unit (n : Nat) : Nat := 2 ^ (n.log2 - 52)

/-- The multiple of its unit that is nearest to a number. -/
def nearestNat (n : Nat) : Nat := roundDiv n (unit n) * unit n

theorem unit_pos (n : Nat) : 0 < unit n := Nat.two_pow_pos _

theorem unit_dvd_two_pow {n k : Nat} (h : n.log2 ≤ k) : unit n ∣ 2 ^ k :=
  Nat.pow_dvd_pow 2 (by omega)

theorem unit_dvd_self {n : Nat} (h : n ≤ 2 ^ 53) : unit n ∣ n := by
  rcases Nat.lt_or_eq_of_le h with hlt | rfl
  · have hlog : n.log2 < 53 := by
      rcases Nat.eq_zero_or_pos n with rfl | hpos
      · decide
      · exact (Nat.log2_lt (Nat.ne_of_gt hpos)).2 hlt
    rw [unit, Nat.sub_eq_zero_of_le (by omega)]
    exact Nat.one_dvd n
  · exact unit_dvd_two_pow (by decide)

theorem nearestNat_of_le {n : Nat} (h : n ≤ 2 ^ 53) : nearestNat n = n :=
  roundDiv_mul_self (unit_pos n) (unit_dvd_self h)

theorem nearestNat_le {n m : Nat} (hle : n ≤ m) (h : unit n ∣ m) : nearestNat n ≤ m := by
  have hround := Nat.mul_le_mul_right (unit n) (roundDiv_mono hle (unit n))
  rwa [roundDiv_mul_self (unit_pos n) h] at hround

theorem le_nearestNat {n m : Nat} (hle : m ≤ n) (h : unit n ∣ m) : m ≤ nearestNat n := by
  have hround := Nat.mul_le_mul_right (unit n) (roundDiv_mono hle (unit n))
  rwa [roundDiv_mul_self (unit_pos n) h] at hround

theorem two_pow_log2_le_nearestNat {n : Nat} (hn : n ≠ 0) : 2 ^ n.log2 ≤ nearestNat n :=
  le_nearestNat (Nat.log2_self_le hn) (unit_dvd_two_pow (Nat.le_refl _))

theorem nearestNat_le_two_pow (n : Nat) : nearestNat n ≤ 2 ^ (n.log2 + 1) :=
  nearestNat_le (Nat.le_of_lt Nat.lt_log2_self) (unit_dvd_two_pow (Nat.le_succ _))

theorem nearestNat_mono {n m : Nat} (hnm : n ≤ m) : nearestNat n ≤ nearestNat m := by
  rcases Nat.eq_zero_or_pos n with rfl | hpos
  · exact Nat.zero_le _
  have hn : n ≠ 0 := Nat.ne_of_gt hpos
  have hm : m ≠ 0 := by omega
  have hlog : n.log2 ≤ m.log2 := (Nat.le_log2 hm).2 (Nat.le_trans (Nat.log2_self_le hn) hnm)
  rcases Nat.lt_or_eq_of_le hlog with hlt | heq
  · -- Between the two there is a power of two, and rounding does not pass it by.
    calc
      nearestNat n ≤ 2 ^ (n.log2 + 1) := nearestNat_le_two_pow n
      _ ≤ 2 ^ m.log2 := Nat.pow_le_pow_right (by decide) hlt
      _ ≤ nearestNat m := two_pow_log2_le_nearestNat hm
  · have hunit : unit n = unit m := by rw [unit, unit, heq]
    rw [nearestNat, nearestNat, hunit]
    exact Nat.mul_le_mul_right _ (roundDiv_mono hnm _)

/-! ## Significands -/

theorem log2_mul_two_pow {n : Nat} (hn : n ≠ 0) (k : Nat) : (n * 2 ^ k).log2 = n.log2 + k := by
  have hpos := Nat.two_pow_pos k
  refine (Nat.log2_eq_iff (Nat.mul_ne_zero hn (Nat.ne_of_gt hpos))).2 ⟨?_, ?_⟩
  · rw [Nat.pow_add]
    exact Nat.mul_le_mul_right _ (Nat.log2_self_le hn)
  · rw [Nat.add_right_comm, Nat.pow_add]
    exact Nat.mul_lt_mul_of_pos_right Nat.lt_log2_self hpos

/-- However far a number is shifted to the left before it is cut down to 53 bits, the
same multiple of a power of two comes out. -/
theorem roundDiv_mul_two_pow {n s : Nat} (h : 52 ≤ n.log2 + s) :
    roundDiv (n * 2 ^ s) (2 ^ (n.log2 + s - 52)) * 2 ^ n.log2 = nearestNat n * 2 ^ 52 := by
  rcases Nat.le_total 52 n.log2 with hlarge | hsmall
  · obtain ⟨k, hk⟩ := Nat.exists_eq_add_of_le' hlarge
    have hshift : 2 ^ (n.log2 + s - 52) = unit n * 2 ^ s := by
      rw [unit, ← Nat.pow_add, Nat.sub_add_comm hlarge]
    have hlog : 2 ^ n.log2 = unit n * 2 ^ 52 := by
      rw [unit, ← Nat.pow_add, Nat.sub_add_cancel hlarge]
    rw [hshift, roundDiv_mul_mul (Nat.two_pow_pos s), hlog, nearestNat, Nat.mul_assoc]
  · have hn : nearestNat n = n := by
      rw [nearestNat, unit, Nat.sub_eq_zero_of_le hsmall]
      exact roundDiv_mul_self Nat.one_pos (Nat.one_dvd n)
    have hshift : 2 ^ s = 2 ^ (52 - n.log2) * 2 ^ (n.log2 + s - 52) := by
      rw [← Nat.pow_add]
      congr 1
      omega
    have hround : roundDiv (n * 2 ^ s) (2 ^ (n.log2 + s - 52)) = n * 2 ^ (52 - n.log2) := by
      rw [hshift, ← Nat.mul_assoc]
      exact Nat.eq_of_mul_eq_mul_right (Nat.two_pow_pos _)
        (roundDiv_mul_self (Nat.two_pow_pos _) (Nat.dvd_mul_left _ _))
    rw [hround, hn, Nat.mul_assoc, ← Nat.pow_add, Nat.sub_add_cancel hsmall]

/-- An integer that needs no more than 53 bits of precision. -/
def Fits (v : Nat) : Prop := 2 ^ v.log2 ∣ v * 2 ^ 52

theorem fits_nearestNat (n : Nat) : Fits (nearestNat n) := by
  rcases Nat.eq_zero_or_pos n with rfl | hpos
  · exact Nat.one_dvd _
  have hn : n ≠ 0 := Nat.ne_of_gt hpos
  rcases Nat.lt_or_eq_of_le (nearestNat_le_two_pow n) with hlt | heq
  · have hleast := two_pow_log2_le_nearestNat hn
    have hlog : (nearestNat n).log2 = n.log2 :=
      (Nat.log2_eq_iff (Nat.ne_of_gt (Nat.lt_of_lt_of_le (Nat.two_pow_pos _) hleast))).2
        ⟨hleast, hlt⟩
    rw [Fits, hlog, ← roundDiv_mul_two_pow (s := 52) (Nat.le_add_left 52 _)]
    exact Nat.dvd_mul_left _ _
  · rw [Fits, heq, Nat.log2_two_pow]
    exact Nat.dvd_mul_right _ _

/-! ## Integers -/

/-- The integer of 53 bits of precision that is nearest to an integer. -/
def nearest (n : Int) : Int := n.sign * nearestNat n.natAbs

theorem nearest_natCast (n : Nat) : nearest n = nearestNat n := by
  rcases Nat.eq_zero_or_pos n with rfl | hpos
  · rfl
  · rw [nearest, Int.sign_natCast_of_ne_zero (Nat.ne_of_gt hpos), Int.one_mul, Int.natAbs_natCast]

theorem nearest_neg (n : Int) : nearest (-n) = -nearest n := by
  rw [nearest, nearest, Int.sign_neg, Int.natAbs_neg, Int.neg_mul]

theorem natAbs_nearest (n : Int) : (nearest n).natAbs = nearestNat n.natAbs := by
  obtain ⟨m, rfl | rfl⟩ := n.eq_nat_or_neg
  · rw [nearest_natCast, Int.natAbs_natCast, Int.natAbs_natCast]
  · rw [nearest_neg, nearest_natCast, Int.natAbs_neg, Int.natAbs_neg, Int.natAbs_natCast,
      Int.natAbs_natCast]

theorem nearest_of_natAbs_le {n : Int} (h : n.natAbs ≤ 2 ^ 53) : nearest n = n := by
  rw [nearest, nearestNat_of_le h, Int.sign_mul_natAbs]

theorem nearest_mono {n m : Int} (hnm : n ≤ m) : nearest n ≤ nearest m := by
  obtain ⟨a, rfl | rfl⟩ := n.eq_nat_or_neg <;> obtain ⟨b, rfl | rfl⟩ := m.eq_nat_or_neg <;>
    simp only [nearest_neg, nearest_natCast]
  · have := nearestNat_mono (show a ≤ b by omega)
    omega
  · obtain rfl : a = 0 := by omega
    obtain rfl : b = 0 := by omega
    exact Int.le_refl _
  · omega
  · have := nearestNat_mono (show b ≤ a by omega)
    omega

/-- Below `2 ^ 53` rounding confuses nothing. -/
theorem nearest_eq_nearest_iff {n m : Int} (h : n.natAbs < 2 ^ 53) :
    nearest n = nearest m ↔ n = m := by
  refine ⟨fun heq => ?_, congrArg nearest⟩
  rw [nearest_of_natAbs_le (Nat.le_of_lt h)] at heq
  rcases Nat.le_total m.natAbs (2 ^ 53) with hsmall | hlarge
  · rw [heq, nearest_of_natAbs_le hsmall]
  · have hm := nearestNat_mono hlarge
    rw [nearestNat_of_le (Nat.le_refl _), ← natAbs_nearest, ← heq] at hm
    exact absurd hm (Nat.not_le.2 h)

end Blockwise.Binary64
