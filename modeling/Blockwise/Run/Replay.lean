import Blockwise.Character.Basic

/-!
# Replaying a run

A replay shows the frames of a recorded run one after the other. It steps
forward as long as there is a later frame, and it can be rewound. A step tells
whether it went on, by a test of its own.
-/

namespace Blockwise

structure Replay where
  frames : List Character
  position : Nat := 0

namespace Replay

/-- The frame on show; there is none only if there are no frames at all. -/
def current (r : Replay) : Option Character := r.frames[r.position]?

/-- Whether no later frame is left. -/
def finished (r : Replay) : Bool := r.frames.length ≤ r.position + 1

/-- Goes on to the next frame, if there is one, and tells whether it did. -/
def step (r : Replay) : Bool × Replay :=
  if r.position + 1 < r.frames.length then (true, { r with position := r.position + 1 })
  else (false, r)

def rewind (r : Replay) : Replay := { r with position := 0 }

end Replay

end Blockwise
