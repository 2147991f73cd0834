import Blockwise.Character.Overrides
import Blockwise.Program.Basic

/-!
# Running a program

A run walks through a program, node by node, with the character in its current
state (`Walk`). If the run is recorded, each new state is kept as a frame at the
moment it is reached. The state before the run is a frame too, and the start
block adds the same state once more.

A program runs only if its first node is the start block. Another start block
that the walk comes to breaks a rule, and a broken rule makes the whole run fail,
whatever has been reached so far.
-/

namespace Blockwise

structure Config where
  /-- From this place on the goal counts as reached. -/
  goalX : Int64 := 4
  /-- How high a jump lifts the character. -/
  jumpHeight : Int64 := 50
  /-- Whether the frames of the run are kept. -/
  recordTrace : Bool := false
deriving DecidableEq

inductive RunError where
  | emptyProgram
  | missingStart
  | duplicateStart
  | emptyLoop
  | conditionUnset
  | unknownCondition (tag : Tag)
  | unsupportedBlock (tag : Tag)
  | nesting (fault : NestingFault)
deriving DecidableEq

namespace RunError

def code : RunError → FaultCode
  | .emptyProgram => .emptyProgram
  | .missingStart => .missingStart
  | .duplicateStart => .duplicateStart
  | .emptyLoop => .emptyLoop
  | .conditionUnset => .conditionUnset
  | .unknownCondition _ => .unknownCondition
  | .unsupportedBlock _ => .unsupportedBlock
  | .nesting fault => fault.code

def category (error : RunError) : FaultCategory := error.code.category

def message : RunError → String
  | .emptyProgram => "Place some blocks first!"
  | .missingStart => "Start by placing \"when ⚑ clicked\" at the very top!"
  | .duplicateStart => "Keep just one event block, at the very top!"
  | .emptyLoop => "Put the blocks you want to repeat inside the repeat block!"
  | .conditionUnset => "Choose a condition for the if block!"
  | .unknownCondition _ => "This program uses a condition that isn't supported yet."
  | .unsupportedBlock _ => "This program contains a block that isn't supported yet."
  | .nesting fault => fault.message

end RunError

/-- The outcome of a run: the final state and, if kept, the frames. -/
structure Execution where
  final : Character
  trace : Option (List Character)
deriving DecidableEq

/-- A run on its way through a program. -/
structure Walk where
  character : Character
  /-- The frames so far, the latest first, if they are kept. -/
  frames : Option (List Character)
  /-- Whether the walk has come to a start block. -/
  started : Bool := false
deriving DecidableEq

namespace Walk

/-- The walk before the first node; a recorded one has its first frame already. -/
def initial (config : Config) (c : Character) : Walk where
  character := c
  frames := if config.recordTrace then some [c] else none

/-- Keeps the current state as a frame, if frames are kept. -/
def snapshot (walk : Walk) : Walk :=
  { walk with frames := walk.frames.map (walk.character :: ·) }

/-- Changes the state and keeps the new one as a frame. -/
def change (walk : Walk) (f : Character → Character) : Walk :=
  { walk with character := f walk.character }.snapshot

def perform (height : Int64) (walk : Walk) : Action → Walk
  | .move => walk.change Character.moved
  | .jump => (walk.change (Character.risen height)).change Character.landed
  | .say message => walk.change (Character.said message)

/-- The walk behind a start block, of which there is only one. -/
def start (walk : Walk) : Except RunError Walk :=
  if walk.started then .error .duplicateStart else .ok { walk with started := true }.snapshot

/-- Goes through a body `rounds` times. -/
def repeatBody (body : Walk → Except RunError Walk) : Nat → Walk → Except RunError Walk
  | 0, walk => .ok walk
  | rounds + 1, walk => do repeatBody body rounds (← body walk)

def finish (walk : Walk) : Execution where
  final := walk.character
  trace := walk.frames.map List.reverse

end Walk

mutual

def Node.walk (config : Config) : Node → Walk → Except RunError Walk
  | ⟨instruction, children⟩, walk =>
    match instruction.tag with
    | .known .start => walk.start
    | .known .move => .ok (walk.perform config.jumpHeight .move)
    | .known .jump => .ok (walk.perform config.jumpHeight .jump)
    | .known (.say message) => .ok (walk.perform config.jumpHeight (.say message))
    | .known .loop =>
      if children.isEmpty then .error .emptyLoop
      else Walk.repeatBody (Program.walk config children) instruction.count walk
    | .known .branch =>
      match instruction.condition with
      | none => .error .conditionUnset
      | some (.known .goalReached) =>
        if walk.character.x < config.goalX then .ok walk
        else if children.isEmpty then .ok (walk.perform config.jumpHeight (.say .arrived))
        else Program.walk config children walk
      | some condition => .error (.unknownCondition condition)
    | .known .close => .ok walk
    | .known .goalReached => .error (.unsupportedBlock instruction.tag)
    | .unknown _ => .error (.unsupportedBlock instruction.tag)

def Program.walk (config : Config) : Program → Walk → Except RunError Walk
  | [], walk => .ok walk
  | node :: rest, walk => do Program.walk config rest (← node.walk config walk)

end

namespace Program

/-- Runs a program from a state of the character. -/
def run (config : Config) (c : Character) (program : Program) : Except RunError Execution :=
  if program.head?.any fun first => first.tag == .known .start then do
    let walk ← program.walk config (.initial config c)
    if walk.started then .ok walk.finish else .error .missingStart
  else .error .missingStart

end Program

/-- Runs a sequence of blocks, with some parts of the first state fixed. An
empty sequence is refused before its nesting is looked at. -/
def runBlocks (config : Config) (overrides : Overrides) (blocks : List Block) :
    Except RunError Execution :=
  if blocks.isEmpty then .error .emptyProgram
  else
    match Program.ofBlocks blocks with
    | .error fault => .error (.nesting fault)
    | .ok program => Program.run config overrides.character program

end Blockwise
