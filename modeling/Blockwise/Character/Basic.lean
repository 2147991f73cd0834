import Blockwise.Block.Kind

/-!
# The character

A program drives a character. Its position and its counters are 64-bit words
that stop at the ends of their range instead of wrapping around. The character
also remembers the highest and the lowest height it has been at, and everything
it has said.

The character does three things: it moves, it jumps, it speaks. Each `Action`
shows it in one or two new states, its frames. A jump has two, the rise and the
landing.
-/

namespace Blockwise

/-- The sum of two words, or the end of the range that it lies beyond. -/
def saturatingAdd (a b : Int64) : Int64 := .ofIntClamp (a.toInt + b.toInt)

structure Character where
  x : Int64 := 0
  y : Int64 := 0
  /-- How far it has moved in all. -/
  moveTotal : Int64 := 0
  maxY : Int64 := 0
  minY : Int64 := 0
  jumpCount : Int64 := 0
  /-- What it has said, the latest last. -/
  messages : List String := []
deriving DecidableEq

namespace Character

/-- Widens the extremes so that the current height lies between them. -/
def widen (c : Character) : Character :=
  { c with maxY := max c.maxY c.y, minY := min c.minY c.y }

def moved (c : Character) : Character :=
  { c with x := saturatingAdd c.x 1, moveTotal := saturatingAdd c.moveTotal 1 }

/-- The upper half of a jump. -/
def risen (height : Int64) (c : Character) : Character :=
  { c with jumpCount := saturatingAdd c.jumpCount 1, y := saturatingAdd c.y height }.widen

/-- The lower half of a jump, which ends on the ground. -/
def landed (c : Character) : Character :=
  { c with y := 0 }.widen

def said (message : Message) (c : Character) : Character :=
  { c with messages := c.messages ++ [message.text] }

def lastMessage (c : Character) : String := c.messages.getLast?.getD ""

end Character

/-- What the character does at a single step of a program. -/
inductive Action where
  | move
  | jump
  | say (message : Message)
deriving DecidableEq

namespace Action

/-- The states in which an action shows the character, one after the other. -/
def frames (height : Int64) (c : Character) : Action → List Character
  | .move => [c.moved]
  | .jump => [c.risen height, (c.risen height).landed]
  | .say message => [c.said message]

/-- The state in which an action leaves the character. -/
def result (height : Int64) (c : Character) : Action → Character
  | .move => c.moved
  | .jump => (c.risen height).landed
  | .say message => c.said message

/-- An action leaves the character as its last frame shows it. -/
theorem getLast?_frames (height : Int64) (c : Character) (action : Action) :
    (action.frames height c).getLast? = some (action.result height c) := by
  cases action <;> rfl

end Action

namespace Character

def after (height : Int64) (c : Character) (actions : List Action) : Character :=
  actions.foldl (Action.result height) c

def trail (height : Int64) (c : Character) : List Action → List Character
  | [] => []
  | action :: rest => action.frames height c ++ (action.result height c).trail height rest

@[simp] theorem after_nil (height : Int64) (c : Character) : c.after height [] = c := rfl

theorem after_cons (height : Int64) (c : Character) (action : Action) (rest : List Action) :
    c.after height (action :: rest) = (action.result height c).after height rest := rfl

theorem after_append (height : Int64) (c : Character) (p q : List Action) :
    c.after height (p ++ q) = (c.after height p).after height q :=
  List.foldl_append

@[simp] theorem trail_nil (height : Int64) (c : Character) : c.trail height [] = [] := rfl

theorem trail_append (height : Int64) (c : Character) (p q : List Action) :
    c.trail height (p ++ q) = c.trail height p ++ (c.after height p).trail height q := by
  induction p generalizing c with
  | nil => rfl
  | cons action rest ih => simp [trail, after_cons, ih]

end Character

end Blockwise
