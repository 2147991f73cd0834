import Mathlib.Data.Prod.Lex
import Blockwise.Proofs.Numeral.Conversion

/-!
# The order of the doubles

Doubles are compared by their signs first, then by their exponents and last by
their mantissas. So every double but NaN has a rank in a lexicographic product, and
two doubles compare as their ranks do (`compare_eq_compare_rank`). The ranks of the
integers of 53 bits of precision come in the order of the integers
(`integerRank_lt`). Hence what is less than a converted integer is less than each
larger one, whatever it is, and the same holds on the other side (`lt_ofInt_of_le`,
`ofInt_lt_of_le`); and two integers are converted to the same double exactly when
the nearest integers of 53 bits are the same (`ofInt_beq_ofInt_iff`).
-/

namespace Blockwise.Binary64

open Float.Model
open Float.Model.UnpackedFloat

/-! ## Ranks -/

/-- The place of a double among all doubles; NaN has none. -/
def rank? : UnpackedFloat → Option (Int ×ₗ Int ×ₗ Int)
  | .infinity .negative => some (toLex (-2, toLex (0, 0)))
  | .finite .negative mantissa exponent _ => some (toLex (-1, toLex (-exponent, -mantissa)))
  | .zero _ => some (toLex (0, toLex (0, 0)))
  | .finite .positive mantissa exponent _ => some (toLex (1, toLex (exponent, mantissa)))
  | .infinity .positive => some (toLex (2, toLex (0, 0)))
  | .notANumber => none

theorem compare_natCast (a b : Nat) : compare (a : Int) b = compare a b := by
  cases h : compare a b with
  | lt => exact Int.compare_eq_lt.2 (Int.ofNat_lt.2 (Nat.compare_eq_lt.1 h))
  | eq => exact Int.compare_eq_eq.2 (congrArg _ (Nat.compare_eq_eq.1 h))
  | gt => exact Int.compare_eq_gt.2 (Int.ofNat_lt.2 (Nat.compare_eq_gt.1 h))

theorem compare_neg_neg (a b : Int) : compare (-a) (-b) = (compare a b).swap := by
  cases h : compare a b with
  | lt => exact Int.compare_eq_gt.2 (Int.neg_lt_neg (Int.compare_eq_lt.1 h))
  | eq => exact Int.compare_eq_eq.2 (congrArg _ (Int.compare_eq_eq.1 h))
  | gt => exact Int.compare_eq_lt.2 (Int.neg_lt_neg (Int.compare_eq_gt.1 h))

/-- Two doubles compare as their ranks do. -/
theorem compare_eq_compare_rank (u v : UnpackedFloat) :
    u.compare v = (rank? u).bind fun r => (rank? v).map fun s => compare r s := by
  rcases u with (_ | _) | _ | (_ | _) | ⟨_ | _, m₁, e₁, _⟩ <;>
    rcases v with (_ | _) | _ | (_ | _) | ⟨_ | _, m₂, e₂, _⟩ <;> try rfl
  -- Only numbers of the same sign are compared by more than their signs.
  · change some ((compare e₁ e₂).then (compare m₁ m₂)).swap =
      some ((compare (-e₁) (-e₂)).then (compare (-m₁ : Int) (-m₂)))
    rw [compare_neg_neg, compare_neg_neg, compare_natCast, Ordering.swap_then]
  · change some ((compare e₁ e₂).then (compare m₁ m₂)) =
      some ((compare e₁ e₂).then (compare (m₁ : Int) m₂))
    rw [compare_natCast]

theorem compare_eq_some_iff {u v : UnpackedFloat} {o : Ordering} :
    u.compare v = some o ↔ ∃ r ∈ rank? u, ∃ s ∈ rank? v, compare r s = o := by
  rw [compare_eq_compare_rank]
  simp only [Option.bind_eq_some_iff, Option.map_eq_some_iff, Option.mem_def]

theorem lt_iff_rank {x y : Float} :
    x < y ↔ ∃ r ∈ rank? x.toModel.unpack, ∃ s ∈ rank? y.toModel.unpack, r < s := by
  change decide (x.toModel < y.toModel) = true ↔ _
  rw [decide_eq_true_iff]
  change (x.toModel.unpack.compare y.toModel.unpack == some .lt) = true ↔ _
  simp only [beq_iff_eq, compare_eq_some_iff, compare_lt_iff_lt]

theorem beq_iff_rank {x y : Float} :
    (x == y) = true ↔ ∃ r ∈ rank? x.toModel.unpack, ∃ s ∈ rank? y.toModel.unpack, r = s := by
  change (x.toModel.unpack.compare y.toModel.unpack == some .eq) = true ↔ _
  simp only [beq_iff_eq, compare_eq_some_iff, compare_eq_iff_eq]

/-! ## Ranks of integers -/

/-- The rank of the double of an integer of 53 bits of precision. -/
def integerRank (v : Int) : Int ×ₗ Int ×ₗ Int :=
  toLex (v.sign, toLex (v.sign * (v.natAbs.log2 - 52),
    v.sign * (v.natAbs * 2 ^ 52 / 2 ^ v.natAbs.log2 : Nat)))

theorem rank_signedIntegral (v : Int) : rank? (signedIntegral v) = some (integerRank v) := by
  rcases Int.lt_trichotomy v 0 with hneg | rfl | hpos
  · rw [signedIntegral, if_pos hneg, integral, dif_pos (mantissa_pos (by omega)), integerRank,
      Int.sign_eq_neg_one_of_neg hneg, Int.neg_one_mul, Int.neg_one_mul]
    rfl
  · rfl
  · rw [signedIntegral, if_neg (by omega), integral, dif_pos (mantissa_pos (by omega)), integerRank,
      Int.sign_eq_one_of_pos hpos, Int.one_mul, Int.one_mul]
    rfl

theorem lex_of_lt {a b : Nat} (hb : Fits b) (ha : a ≠ 0) (h : a < b) :
    a.log2 < b.log2 ∨ a.log2 = b.log2 ∧
      a * 2 ^ 52 / 2 ^ a.log2 < b * 2 ^ 52 / 2 ^ b.log2 := by
  have hlog : a.log2 ≤ b.log2 :=
    (Nat.le_log2 (by omega)).2 (Nat.le_trans (Nat.log2_self_le ha) (Nat.le_of_lt h))
  refine (Nat.lt_or_eq_of_le hlog).imp id fun heq => ⟨heq, ?_⟩
  rw [heq]
  exact Nat.div_lt_div_of_lt_of_dvd hb (Nat.mul_lt_mul_of_pos_right h (by decide))

/-- The ranks of integers come in the order of the integers. -/
theorem integerRank_lt {v w : Int} (hv : Fits v.natAbs) (hw : Fits w.natAbs) (h : v < w) :
    integerRank v < integerRank w := by
  simp only [integerRank, Prod.Lex.toLex_lt_toLex]
  rcases Int.lt_trichotomy v 0 with hv₀ | rfl | hv₀
  · rw [Int.sign_eq_neg_one_of_neg hv₀]
    rcases lt_or_ge w 0 with hw₀ | hw₀
    · rw [Int.sign_eq_neg_one_of_neg hw₀]
      have hlex := lex_of_lt hv (show w.natAbs ≠ 0 by omega) (by omega)
      refine .inr ⟨rfl, hlex.imp (fun hlog => by omega) fun ⟨hlog, hmantissa⟩ => ⟨by rw [hlog], ?_⟩⟩
      exact Int.mul_lt_mul_of_neg_left (Int.ofNat_lt.2 hmantissa) (by decide)
    · have hsign : 0 ≤ w.sign := Int.sign_nonneg_iff.2 hw₀
      exact .inl (by omega)
  · rw [Int.sign_zero, Int.sign_eq_one_of_pos h]
    exact .inl (by decide)
  · rw [Int.sign_eq_one_of_pos hv₀, Int.sign_eq_one_of_pos (by omega)]
    have hlex := lex_of_lt hw (show v.natAbs ≠ 0 by omega) (by omega)
    refine .inr ⟨rfl, hlex.imp (fun hlog => by omega) fun ⟨hlog, hmantissa⟩ => ⟨by rw [hlog], ?_⟩⟩
    exact Int.mul_lt_mul_of_pos_left (Int.ofNat_lt.2 hmantissa) (by decide)

/-! ## Converted integers -/

theorem fits_nearest (n : Int) : Fits (nearest n).natAbs := by
  rw [natAbs_nearest]
  exact fits_nearestNat _

theorem integerRank_nearest_inj {n m : Int} :
    integerRank (nearest n) = integerRank (nearest m) ↔ nearest n = nearest m := by
  refine ⟨fun heq => ?_, congrArg integerRank⟩
  rcases Int.lt_trichotomy (nearest n) (nearest m) with hlt | heq' | hgt
  · exact absurd heq (integerRank_lt (fits_nearest n) (fits_nearest m) hlt).ne
  · exact heq'
  · exact absurd heq (integerRank_lt (fits_nearest m) (fits_nearest n) hgt).ne'

theorem integerRank_nearest_mono {n m : Int} (hnm : n ≤ m) :
    integerRank (nearest n) ≤ integerRank (nearest m) := by
  rcases Int.lt_or_eq_of_le (nearest_mono hnm) with hlt | heq
  · exact (integerRank_lt (fits_nearest n) (fits_nearest m) hlt).le
  · exact (congrArg integerRank heq).le

theorem natAbs_toInt_lt (n : Int64) : n.toInt.natAbs < 2 ^ 64 := by
  have hleast := n.le_toInt
  have hmost := n.toInt_lt
  omega

variable {n m : Int} (hn : n.natAbs < 2 ^ 64) (hm : m.natAbs < 2 ^ 64)

include hn

theorem rank_ofInt : rank? (Float.ofInt n).toModel.unpack = some (integerRank (nearest n)) := by
  rw [unpack_ofInt hn, rank_signedIntegral]

include hm

theorem ofInt_beq_ofInt_iff : (Float.ofInt n == Float.ofInt m) = true ↔ nearest n = nearest m := by
  simp only [beq_iff_rank, rank_ofInt hn, rank_ofInt hm, Option.mem_some_iff, exists_eq_left']
  exact integerRank_nearest_inj

theorem ofInt_lt_of_le {x : Float} (hle : n ≤ m) (h : Float.ofInt m < x) : Float.ofInt n < x := by
  simp only [lt_iff_rank, rank_ofInt hn, rank_ofInt hm, Option.mem_some_iff, exists_eq_left'] at *
  obtain ⟨r, hr, hlt⟩ := h
  exact ⟨r, hr, (integerRank_nearest_mono hle).trans_lt hlt⟩

theorem lt_ofInt_of_le {x : Float} (hle : n ≤ m) (h : x < Float.ofInt n) : x < Float.ofInt m := by
  simp only [lt_iff_rank, rank_ofInt hn, rank_ofInt hm, Option.mem_some_iff, exists_eq_left'] at *
  obtain ⟨r, hr, hlt⟩ := h
  exact ⟨r, hr, hlt.trans_le (integerRank_nearest_mono hle)⟩

end Blockwise.Binary64
