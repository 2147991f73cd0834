import Blockwise.Character.Basic

/-!
# Overrides

A run begins with a character at rest, except where the test case overrides
something. Whatever the overrides say about the extremes, the first height lies
between them.
-/

namespace Blockwise

/-- The parts of the first state that a test case fixes. -/
structure Overrides where
  x : Option Int64 := none
  y : Option Int64 := none
  moveTotal : Option Int64 := none
  maxY : Option Int64 := none
  minY : Option Int64 := none
  jumpCount : Option Int64 := none
  messages : Option (List String) := none
deriving DecidableEq

def Overrides.character (o : Overrides) : Character :=
  Character.widen
    { x := o.x.getD 0
      y := o.y.getD 0
      moveTotal := o.moveTotal.getD 0
      maxY := o.maxY.getD 0
      minY := o.minY.getD 0
      jumpCount := o.jumpCount.getD 0
      messages := o.messages.getD [] }

/-- The overrides that fix every part of a state. -/
def Character.overrides (c : Character) : Overrides :=
  { x := some c.x
    y := some c.y
    moveTotal := some c.moveTotal
    maxY := some c.maxY
    minY := some c.minY
    jumpCount := some c.jumpCount
    messages := some c.messages }

end Blockwise
