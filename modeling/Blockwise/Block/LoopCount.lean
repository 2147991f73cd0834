import Blockwise.Numeral.Binary64

/-!
# Loop counts

The stored count of a repeat block may be any double, or missing. Whenever the
count is needed it is brought into range first: `LoopCount.normalize` rounds it,
moves it into `1 … 10`, and takes `4` for a count that is missing or not finite.
-/

namespace Blockwise.LoopCount

def default : Nat := 4

/-- The least number of rounds a repeat block runs. -/
def least : Nat := 1

/-- The largest number of rounds a repeat block runs. -/
def most : Nat := 10

/-- The number of rounds that a stored count stands for. -/
def normalize (stored : Option Float) : Nat :=
  match stored.bind Binary64.round? with
  | some n => (max (least : Int) (min n most)).toNat
  | none => default

/-- What is written on a repeat block that runs `count` rounds. -/
def label (count : Nat) : String := s!"repeat ({count} times)"

theorem least_le_normalize (stored : Option Float) : least ≤ normalize stored := by
  unfold normalize
  split
  case h_1 n _ =>
    have h : (least : Int) ≤ max (least : Int) (min n most) := Int.le_max_left ..
    exact Int.ofNat_le.1 (Int.le_trans h (Int.self_le_toNat _))
  case h_2 => decide

theorem normalize_le_most (stored : Option Float) : normalize stored ≤ most := by
  unfold normalize
  split
  case h_1 n _ =>
    have h : max (least : Int) (min n most) ≤ most :=
      Int.max_le.2 ⟨by decide, Int.min_le_right ..⟩
    exact Int.toNat_le.2 h
  case h_2 => decide

theorem normalize_pos (stored : Option Float) : 0 < normalize stored :=
  least_le_normalize stored

end Blockwise.LoopCount
