import Blockwise.Proofs.Character.Growth

/-!
# What actions add up to

A list of actions does to a character what its numbers of moves and of jumps and
its messages say, in whatever order the actions come. A counter that stops at
the end of its range at every step ends where it would end if it stopped only
once. All jumps but the first begin on the ground, so they all reach the same
height, and the extremes do not depend on how many there are.

`Tally` says this of two states. Each action adds one to its own number
(`Tally.moved`, `Tally.jumped`, `Tally.said`), so the state after any list of
actions is known from the numbers in the list (`Character.tally_after`), and so
is the number of its frames (`Character.length_trail`).
-/

namespace Blockwise

/-! ## Folds -/

/-- Once a value has been folded in, it makes no difference any more. -/
theorem op_foldl_of_mem {α : Type} (op : α → α → α) [Std.Associative op] [Std.Commutative op]
    [Std.IdempotentOp op] {l : List α} {a : α} (h : a ∈ l) (start : α) :
    op (l.foldl op start) a = l.foldl op start := by
  induction l generalizing start with
  | nil => cases h
  | cons b l ih =>
    rw [List.foldl_cons]
    rcases List.mem_cons.1 h with rfl | h
    · have hstart : op start a = op a start := Std.Commutative.comm start a
      have hidem : op a a = a := Std.IdempotentOp.idempotent a
      rw [hstart, List.foldl_assoc]
      calc
        op (op a (l.foldl op start)) a = op a (op a (l.foldl op start)) :=
          Std.Commutative.comm _ _
        _ = op (op a a) (l.foldl op start) := (Std.Associative.assoc _ _ _).symm
        _ = op a (l.foldl op start) := by rw [hidem]
    · exact ih h (op start b)

/-! ## The numbers of a list of actions -/

/-- What an action says, if it is a message. -/
def Action.text? : Action → Option String
  | .move | .jump => none
  | .say message => some message.text

/-- What is said in a list of actions, the latest last. -/
def spoken (actions : List Action) : List String := actions.filterMap Action.text?

@[simp] theorem spoken_nil : spoken [] = [] := rfl

@[simp] theorem spoken_move_cons (rest : List Action) : spoken (.move :: rest) = spoken rest := rfl

@[simp] theorem spoken_jump_cons (rest : List Action) : spoken (.jump :: rest) = spoken rest := rfl

@[simp] theorem spoken_say_cons (message : Message) (rest : List Action) :
    spoken (.say message :: rest) = message.text :: spoken rest := rfl

theorem exists_message_of_mem_spoken {actions : List Action} {text : String}
    (h : text ∈ spoken actions) : ∃ message : Message, message.text = text := by
  obtain ⟨action, -, htext⟩ := List.mem_filterMap.1 h
  cases action with
  | move | jump => cases htext
  | say message => exact ⟨message, Option.some.inj htext⟩

namespace Character

/-- The heights that a number of jumps shows, each only once: that of the first
rise, the ground, and the height of every further rise. -/
def jumpHeights (height : Int64) (c : Character) : Nat → List Int64
  | 0 => []
  | 1 => [saturatingAdd c.y height, 0]
  | _ + 2 => [saturatingAdd c.y height, 0, height]

end Character

/-- The state `final` is what `moves` moves, `jumps` jumps and the messages
`texts` make of the state `first`. -/
structure Tally (height : Int64) (first : Character) (moves jumps : Nat) (texts : List String)
    (final : Character) : Prop where
  x : final.x.toInt = min (first.x.toInt + moves) Int64.maxValue.toInt
  moveTotal : final.moveTotal.toInt = min (first.moveTotal.toInt + moves) Int64.maxValue.toInt
  jumpCount : final.jumpCount.toInt = min (first.jumpCount.toInt + jumps) Int64.maxValue.toInt
  messages : final.messages = first.messages ++ texts
  y : final.y = if jumps = 0 then first.y else 0
  maxY : final.maxY = (first.jumpHeights height jumps).foldl max first.maxY
  minY : final.minY = (first.jumpHeights height jumps).foldl min first.minY

/-! ## One action more -/

theorem toInt_saturatingAdd_one (a : Int64) :
    (saturatingAdd a 1).toInt = min (a.toInt + 1) Int64.maxValue.toInt := by
  have hone : (1 : Int64).toInt = 1 := by decide
  have hlow := a.minValue_le_toInt
  have hrange : Int64.minValue.toInt ≤ Int64.maxValue.toInt := by decide
  rw [toInt_saturatingAdd, hone]
  omega

/-- To stop at the end of the range once more is to stop there once. -/
theorem toInt_saturatingAdd_one_of_eq {a : Int64} {start : Int} {n : Nat}
    (h : a.toInt = min (start + n) Int64.maxValue.toInt) :
    (saturatingAdd a 1).toInt = min (start + (n + 1 : Nat)) Int64.maxValue.toInt := by
  rw [toInt_saturatingAdd_one, h]
  omega

theorem zero_saturatingAdd (a : Int64) : saturatingAdd 0 a = a := by
  have hzero : (0 : Int64).toInt = 0 := by decide
  have hlow := a.minValue_le_toInt
  have hhigh := a.toInt_le
  rw [← Int64.toInt_inj, toInt_saturatingAdd, hzero]
  omega

theorem Character.foldl_jumpHeights_succ {op : Int64 → Int64 → Int64} [Std.Associative op]
    [Std.Commutative op] [Std.IdempotentOp op] (height : Int64) (c : Character) (jumps : Nat)
    (start : Int64) :
    (c.jumpHeights height (jumps + 1)).foldl op start =
      op (op ((c.jumpHeights height jumps).foldl op start)
        (saturatingAdd (if jumps = 0 then c.y else 0) height)) 0 := by
  -- Only the first two jumps show a height that has not been there before.
  match jumps with
  | 0 => rfl
  | 1 =>
    rw [if_neg Nat.one_ne_zero, zero_saturatingAdd]
    exact (op_foldl_of_mem op (l := c.jumpHeights height 2) (by simp [jumpHeights]) start).symm
  | jumps + 2 =>
    have hheight : height ∈ c.jumpHeights height (jumps + 2) := by simp [jumpHeights]
    have hground : 0 ∈ c.jumpHeights height (jumps + 2) := by simp [jumpHeights]
    rw [if_neg (Nat.succ_ne_zero _), zero_saturatingAdd, op_foldl_of_mem op hheight,
      op_foldl_of_mem op hground]
    rfl

namespace Tally

variable {height : Int64} {first c : Character} {moves jumps : Nat}
  {texts : List String}

theorem refl (height : Int64) (c : Character) : Tally height c 0 0 [] c where
  x := by have := c.x.toInt_le; omega
  moveTotal := by have := c.moveTotal.toInt_le; omega
  jumpCount := by have := c.jumpCount.toInt_le; omega
  messages := (List.append_nil _).symm
  y := rfl
  maxY := rfl
  minY := rfl

theorem moved (h : Tally height first moves jumps texts c) :
    Tally height first (moves + 1) jumps texts c.moved :=
  { h with
    x := toInt_saturatingAdd_one_of_eq h.x
    moveTotal := toInt_saturatingAdd_one_of_eq h.moveTotal }

theorem jumped (h : Tally height first moves jumps texts c) :
    Tally height first moves (jumps + 1) texts (c.risen height).landed :=
  { h with
    jumpCount := toInt_saturatingAdd_one_of_eq h.jumpCount
    y := rfl
    maxY := by
      rw [Character.foldl_jumpHeights_succ, ← h.maxY, ← h.y]
      rfl
    minY := by
      rw [Character.foldl_jumpHeights_succ, ← h.minY, ← h.y]
      rfl }

theorem said (h : Tally height first moves jumps texts c) (message : Message) :
    Tally height first moves jumps (texts ++ [message.text]) (c.said message) :=
  { h with
    messages := by
      rw [← List.append_assoc, ← h.messages]
      rfl }

/-! ## Any number of actions more -/

theorem after (h : Tally height first moves jumps texts c) (actions : List Action) :
    Tally height first (moves + actions.count .move) (jumps + actions.count .jump)
      (texts ++ spoken actions) (c.after height actions) := by
  induction actions generalizing moves jumps texts c with
  | nil => simpa using h
  | cons action rest ih =>
    rw [Character.after_cons]
    cases action with
    | move => simpa [Action.result, Nat.add_assoc, Nat.add_comm 1] using ih h.moved
    | jump => simpa [Action.result, Nat.add_assoc, Nat.add_comm 1] using ih h.jumped
    | say message => simpa [Action.result] using ih (h.said message)

end Tally

namespace Character

/-- The state after a list of actions, as the numbers in the list tell it. -/
theorem tally_after (height : Int64) (c : Character) (actions : List Action) :
    Tally height c (actions.count .move) (actions.count .jump) (spoken actions)
      (c.after height actions) := by
  simpa using (Tally.refl height c).after actions

/-- A jump has two frames, every other action one. -/
theorem length_trail (height : Int64) (c : Character) (actions : List Action) :
    (c.trail height actions).length =
      actions.count .move + 2 * actions.count .jump + (spoken actions).length := by
  induction actions generalizing c with
  | nil => rfl
  | cons action rest ih =>
    rw [trail, List.length_append, ih]
    cases action <;> simp [Action.frames] <;> omega

end Character

end Blockwise
