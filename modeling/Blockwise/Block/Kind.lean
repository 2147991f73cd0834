/-!
# The block catalog

Every block that can be placed is of one of eleven kinds. A kind has a fixed
tag, under which it is stored, a label and a color, with which it is drawn, a
category, under which it is offered, and a role, which says how it takes part
in nesting. The last is all that the reading of a sequence as a tree depends
on.

The main facts are that a tag determines its kind (`Kind.ofTag?_tag`) and that
the catalog is complete (`Kind.mem_all`).
-/

namespace Blockwise

inductive Message where
  | hello
  | madeIt
  | jumped
  | arrived
deriving DecidableEq

def Message.text : Message → String
  | .hello => "Hello!"
  | .madeIt => "I made it!"
  | .jumped => "Jump success!"
  | .arrived => "Goal reached!"

inductive Category where
  | event
  | motion
  | looks
  | control
  | condition
deriving DecidableEq

/-- The part a block plays in the nesting of a sequence: an opener begins a
body, a closer ends the innermost body still open, a condition belongs to a
conditional opener, and everything else is a statement on its own. -/
inductive Role where
  | ordinary
  | opener
  | closer
  | condition
deriving DecidableEq

/-- The kinds of blocks. `loop` and `branch` begin a body, and `close` ends
either. -/
inductive Kind where
  | start
  | move
  | jump
  | say (message : Message)
  | loop
  | branch
  | close
  | goalReached
deriving DecidableEq

namespace Category

def all : List Category := [.event, .motion, .looks, .control, .condition]

def name : Category → String
  | .event => "event"
  | .motion => "motion"
  | .looks => "looks"
  | .control => "control"
  | .condition => "condition"

def color : Category → String
  | .event => "#FFBF00"
  | .motion => "#4C97FF"
  | .looks => "#9966FF"
  | .control => "#FFAB19"
  | .condition => "#FACC15"

end Category

namespace Role

def all : List Role := [.ordinary, .opener, .closer, .condition]

def name : Role → String
  | .ordinary => "ordinary"
  | .opener => "scope_opener"
  | .closer => "scope_closer"
  | .condition => "condition"

end Role

namespace Kind

/-- The whole catalog, in palette order. -/
def all : List Kind :=
  [.start, .move, .jump, .say .hello, .say .madeIt, .say .jumped, .say .arrived,
    .loop, .branch, .close, .goalReached]

def palette : List Kind :=
  [.start, .move, .jump, .say .hello, .say .madeIt, .say .jumped, .loop, .branch]

def tag : Kind → String
  | .start => "event_flag"
  | .move => "motion_move"
  | .jump => "motion_jump"
  | .say .hello => "looks_hello"
  | .say .madeIt => "looks_goal"
  | .say .jumped => "looks_jump"
  | .say .arrived => "looks_arrived"
  | .loop => "control_for_loop"
  | .branch => "control_if_goal"
  | .close => "control_end"
  | .goalReached => "condition_goal_reached"

/-- The kind stored under a tag, if the catalog has one. -/
def ofTag? (text : String) : Option Kind :=
  all.find? fun kind => kind.tag == text

/-- What is written on a block of this kind. -/
def label : Kind → String
  | .start => "when ⚑ clicked"
  | .move => "move right"
  | .jump => "jump"
  | .say .hello => "say \"Hello!\""
  | .say .madeIt => "say \"I made it!\""
  | .say .jumped => "say \"Jump success!\""
  | .say .arrived => "say \"Goal reached!\""
  | .loop => "repeat (choose a count)"
  | .branch => "if [condition] then"
  | .close => "end"
  | .goalReached => "reached the goal?"

def category : Kind → Category
  | .start => .event
  | .move | .jump => .motion
  | .say _ => .looks
  | .loop | .branch | .close => .control
  | .goalReached => .condition

def role : Kind → Role
  | .loop | .branch => .opener
  | .close => .closer
  | .goalReached => .condition
  | .start | .move | .jump | .say _ => .ordinary

/-- Whether blocks of this kind can be chosen as the condition of a branch. -/
def isCondition (kind : Kind) : Bool := kind.role == .condition

theorem mem_all (kind : Kind) : kind ∈ all := by
  rcases kind with _ | _ | _ | message | _ | _ | _ | _
  case say => cases message <;> decide
  all_goals decide

@[simp] theorem ofTag?_tag (kind : Kind) : ofTag? kind.tag = some kind := by
  rcases kind with _ | _ | _ | message | _ | _ | _ | _
  case say => cases message <;> decide
  all_goals decide

theorem tag_of_ofTag? {text : String} {kind : Kind} (h : ofTag? text = some kind) :
    kind.tag = text := by
  simpa using List.find?_some h

end Kind

end Blockwise
