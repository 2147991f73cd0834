import Blockwise.Character.Basic
import Blockwise.Numeral.Shortest

/-!
# Expectations

An expectation says something about the state in which a run ends; each of its
parts may be left out. Places, heights and counters are to be met exactly, the
extremes are thresholds, and of the messages one may have to occur and one may
have to be the last.

A target is a double, as it was authored, and a word is turned into the nearest
double before it is compared with one. Every part of the expectation that is
not met is an issue, and the issues come in a fixed order (`Expectation.issues`).
-/

namespace Blockwise

structure Expectation where
  x : Option Float := none
  y : Option Float := none
  moveTotal : Option Float := none
  jumpCount : Option Float := none
  /-- The greatest height is at least this. -/
  maxY : Option Float := none
  /-- The least height is at most this. -/
  minY : Option Float := none
  /-- This has been said. -/
  messageIncludes : Option String := none
  /-- This was said last. -/
  lastMessage : Option String := none
deriving DecidableEq

/-- A part of an expectation that is not met, with what was found instead. -/
inductive Issue where
  | x (target : Float) (found : Int64)
  | y (target : Float) (found : Int64)
  | jumpCount (target : Float) (found : Int64)
  | moveTotal (target : Float) (found : Int64)
  | maxY (target : Float) (found : Int64)
  | minY (target : Float) (found : Int64)
  | messageIncludes (target : String)
  | lastMessage (target found : String)
deriving DecidableEq

namespace Issue

/-- How the doubles of an expectation are shown to the learner: never with an
exponent, and a whole number without a fraction. -/
def targetStyle : DecimalStyle where
  positional _ := true
  marksWhole := false
  halfUp := true

def targetText (target : Float) : String :=
  match targetStyle.text? target with
  | some text => text
  | none => if target.isNaN then "NaN" else if target < 0 then "-inf" else "inf"

def message : Issue → String
  | .x target found =>
    s!"Make the number of moves right {targetText target} (right now it's {found})."
  | .y target found => s!"Bring y back to {targetText target} (right now it's {found})."
  | .jumpCount target found =>
    s!"Make the number of jumps {targetText target} (right now it's {found})."
  | .moveTotal target found =>
    s!"Use \"move right\" {targetText target} times in total (right now it's {found})."
  | .maxY target found =>
    s!"Jump higher! (highest y is {found} → target {targetText target})"
  | .minY target found =>
    s!"Bring y down to {targetText target} or lower (lowest is {found})."
  | .messageIncludes target => s!"Add a block that says \"{target}\"."
  | .lastMessage target found =>
    let shown := if found.isEmpty then "(nothing)" else found
    s!"Finish by saying \"{target}\" (right now it's \"{shown}\")."

end Issue

/-- The double nearest to a word. -/
def wordToFloat (n : Int64) : Float := .ofInt n.toInt

namespace Expectation

/-- The issue of one part of an expectation, if the part is there and not met. -/
def unmet {α : Type} (target : Option α) (isMet : α → Bool) (issue : α → Issue) : List Issue :=
  match target with
  | none => []
  | some target => if isMet target then [] else [issue target]

/-- The issues of a final state. -/
def issues (e : Expectation) (c : Character) : List Issue :=
  unmet e.x (wordToFloat c.x == ·) (.x · c.x) ++
  unmet e.y (wordToFloat c.y == ·) (.y · c.y) ++
  unmet e.jumpCount (wordToFloat c.jumpCount == ·) (.jumpCount · c.jumpCount) ++
  unmet e.moveTotal (wordToFloat c.moveTotal == ·) (.moveTotal · c.moveTotal) ++
  unmet e.maxY (fun target => !decide (wordToFloat c.maxY < target)) (.maxY · c.maxY) ++
  unmet e.minY (fun target => !decide (wordToFloat c.minY > target)) (.minY · c.minY) ++
  unmet e.messageIncludes (c.messages.contains ·) .messageIncludes ++
  unmet e.lastMessage (c.lastMessage == ·) (.lastMessage · c.lastMessage)

end Expectation

/-- The result of comparing a final state with what is expected of it. -/
inductive Verdict where
  /-- Nothing is expected. -/
  | unconstrained
  | passed
  /-- Some part of the expectation is not met. -/
  | failed (issues : List Issue)
deriving DecidableEq

namespace Verdict

/-- Compares a final state with what is expected of it, if anything is. -/
def ofState (e : Option Expectation) (c : Character) : Verdict :=
  match e with
  | none => .unconstrained
  | some e =>
    match e.issues c with
    | [] => .passed
    | issues => .failed issues

def isPass : Verdict → Bool
  | .unconstrained | .passed => true
  | .failed _ => false

def issues : Verdict → List Issue
  | .unconstrained | .passed => []
  | .failed issues => issues

def message : Verdict → String
  | .unconstrained => "It ran as expected!"
  | .passed => "Perfect! It moved exactly as expected."
  | .failed issues => " ".intercalate (issues.map Issue.message)

end Verdict

end Blockwise
