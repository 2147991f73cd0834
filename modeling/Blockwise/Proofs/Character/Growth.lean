import Blockwise.Character.Overrides

/-!
# What a character keeps

`Precedes` orders the states of a character: the later state has come at least
as far, has counted at least as much, has seen at least the same heights, and
has said everything that the earlier one has said, and perhaps more. Every
action goes up in this order, so a whole list of actions does
(`precedes_after`).

The height of a first state lies between its extremes, and every action keeps it
there (`WithinExtremes.after`). A state in which this holds is the first state
of a run whose overrides fix all of its parts
(`WithinExtremes.character_overrides`).
-/

namespace Blockwise

/-! ## Words that stop at the ends of their range -/

theorem toInt_saturatingAdd (a b : Int64) :
    (saturatingAdd a b).toInt =
      max Int64.minValue.toInt (min (a.toInt + b.toInt) Int64.maxValue.toInt) := by
  rw [saturatingAdd, Int64.ofIntClamp]
  have hrange : Int64.minValue.toInt ≤ Int64.maxValue.toInt := by decide
  split
  case isFalse hlow => omega
  case isTrue hlow =>
    split
    case isTrue hhigh =>
      rw [Int64.toInt_ofIntLE]
      omega
    case isFalse hhigh => omega

theorem le_saturatingAdd (a : Int64) {b : Int64} (h : 0 ≤ b) : a ≤ saturatingAdd a b := by
  have hb : 0 ≤ b.toInt := Int64.le_iff_toInt_le.1 h
  have hlow := a.minValue_le_toInt
  have hhigh := a.toInt_le
  rw [Int64.le_iff_toInt_le, toInt_saturatingAdd]
  omega

instance lawfulOrderSupWord : Std.LawfulOrderSup Int64 where
  max_le_iff a b c := by
    change (if a ≤ b then b else a) ≤ c ↔ a ≤ c ∧ b ≤ c
    split
    case isTrue hab => exact ⟨fun hb => ⟨Int64.le_trans hab hb, hb⟩, And.right⟩
    case isFalse hab =>
      have hba : b ≤ a := Int64.le_of_lt (Int64.not_le.1 hab)
      exact ⟨fun ha => ⟨ha, Int64.le_trans hba ha⟩, And.left⟩

instance commutativeMaxWord : Std.Commutative (max : Int64 → Int64 → Int64) where
  comm _ _ := Int64.le_antisymm
    ((Std.LawfulOrderSup.max_le_iff ..).2 ⟨Std.right_le_max, Std.left_le_max⟩)
    ((Std.LawfulOrderSup.max_le_iff ..).2 ⟨Std.right_le_max, Std.left_le_max⟩)

namespace Character

variable {a b c : Character}

/-! ## The order of states -/

/-- The state `b` can come after the state `a`. -/
structure Precedes (a b : Character) : Prop where
  x : a.x ≤ b.x
  moveTotal : a.moveTotal ≤ b.moveTotal
  jumpCount : a.jumpCount ≤ b.jumpCount
  maxY : a.maxY ≤ b.maxY
  minY : b.minY ≤ a.minY
  messages : a.messages <+: b.messages

theorem Precedes.refl (c : Character) : c.Precedes c where
  x := Int64.le_refl _
  moveTotal := Int64.le_refl _
  jumpCount := Int64.le_refl _
  maxY := Int64.le_refl _
  minY := Int64.le_refl _
  messages := List.prefix_rfl

theorem Precedes.trans (hab : a.Precedes b) (hbc : b.Precedes c) : a.Precedes c where
  x := Int64.le_trans hab.x hbc.x
  moveTotal := Int64.le_trans hab.moveTotal hbc.moveTotal
  jumpCount := Int64.le_trans hab.jumpCount hbc.jumpCount
  maxY := Int64.le_trans hab.maxY hbc.maxY
  minY := Int64.le_trans hbc.minY hab.minY
  messages := hab.messages.trans hbc.messages

instance : Trans Precedes Precedes Precedes := ⟨Precedes.trans⟩

theorem precedes_moved (c : Character) : c.Precedes c.moved :=
  { Precedes.refl c with
    x := le_saturatingAdd c.x (by decide)
    moveTotal := le_saturatingAdd c.moveTotal (by decide) }

theorem precedes_risen (height : Int64) (c : Character) : c.Precedes (c.risen height) :=
  { Precedes.refl c with
    jumpCount := le_saturatingAdd c.jumpCount (by decide)
    maxY := Std.left_le_max
    minY := Std.min_le_left }

theorem precedes_landed (c : Character) : c.Precedes c.landed :=
  { Precedes.refl c with
    maxY := Std.left_le_max
    minY := Std.min_le_left }

theorem precedes_said (message : Message) (c : Character) : c.Precedes (c.said message) :=
  { Precedes.refl c with messages := List.prefix_append .. }

theorem precedes_result (height : Int64) (c : Character) (action : Action) :
    c.Precedes (action.result height c) := by
  cases action with
  | move => exact precedes_moved c
  | jump => exact (precedes_risen height c).trans (precedes_landed _)
  | say message => exact precedes_said message c

theorem precedes_after (height : Int64) (c : Character) (actions : List Action) :
    c.Precedes (c.after height actions) := by
  induction actions generalizing c with
  | nil => exact Precedes.refl c
  | cons action rest ih =>
    rw [after_cons]
    exact (precedes_result height c action).trans (ih _)

/-! ## The height and its extremes -/

/-- The current height lies between the extremes. -/
structure WithinExtremes (c : Character) : Prop where
  minY_le : c.minY ≤ c.y
  le_maxY : c.y ≤ c.maxY

theorem withinExtremes_widen (c : Character) : c.widen.WithinExtremes where
  minY_le := Std.min_le_right
  le_maxY := Std.right_le_max

theorem withinExtremes_character (overrides : Overrides) :
    overrides.character.WithinExtremes :=
  withinExtremes_widen _

theorem WithinExtremes.max_maxY_y (h : c.WithinExtremes) : max c.maxY c.y = c.maxY :=
  Std.LawfulOrderLeftLeaningMax.max_eq_left _ _ h.le_maxY

theorem WithinExtremes.min_minY_y (h : c.WithinExtremes) : min c.minY c.y = c.minY :=
  Std.LawfulOrderLeftLeaningMin.min_eq_left _ _ h.minY_le

/-- Between its extremes, a state that is fixed part by part is taken as it is. -/
theorem WithinExtremes.character_overrides (h : c.WithinExtremes) :
    c.overrides.character = c := by
  change c.widen = c
  rw [widen, h.max_maxY_y, h.min_minY_y]

/-- A step upwards or downwards widens the extremes, any other step leaves the
height as it is. -/
theorem WithinExtremes.result (h : c.WithinExtremes) (height : Int64) (action : Action) :
    (action.result height c).WithinExtremes := by
  cases action with
  | move => exact ⟨h.minY_le, h.le_maxY⟩
  | jump => exact withinExtremes_widen _
  | say message => exact ⟨h.minY_le, h.le_maxY⟩

theorem WithinExtremes.after (h : c.WithinExtremes) (height : Int64) (actions : List Action) :
    (c.after height actions).WithinExtremes := by
  induction actions generalizing c with
  | nil => exact h
  | cons action rest ih =>
    rw [after_cons]
    exact ih (h.result height action)

end Character

end Blockwise
